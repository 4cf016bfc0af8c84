import ImagePipeline.Proofs.AuthorizationHeader
import ImagePipeline.Proofs.InvocationTranscript
import ImagePipeline.Proofs.SendableRequest

/-!
# Where the secrets go

A run has three secrets: the tokens of the registry, of the source host and of the scheduler.  Two
runs with other secrets and the same settings otherwise are in lockstep.  So if the server does not
look at headers, the runs send the same requests but for headers and end alike, and a header differs
only where the secret in it belongs.

* `Settings.withSecrets`: settings with other secrets.
* `Request.bare`: a request without its headers.
* `Request.AlikeBut`: which requests of the two runs may differ, and in what.
* `Verb.lockstep_command`: the runs of a command are in lockstep.
* `Verb.secrets_stay_in_headers`: what follows with a server that does not look at headers.
-/

namespace ImagePipeline

open Program Web.Request

/-- The secrets of a run. -/
structure Secrets where
  /-- The token of the registry's user. -/
  dockerhubToken : String
  /-- The token for the source host. -/
  githubToken : String
  /-- The token for the scheduler. -/
  jenkinsToken : String

/-- The settings with other secrets. -/
def Settings.withSecrets (s : Settings) (k : Secrets) : Settings :=
  { s with
    dockerhubToken := some k.dockerhubToken
    githubToken := some k.githubToken
    build := { s.build with apiToken := some k.jenkinsToken } }

/-! ### Requests without their headers -/

/-- A call without the header for the registry. -/
def EngineCall.bare : EngineCall → EngineCall
  | pull repository tag _ => pull repository tag none
  | push repository tag _ => push repository tag none
  | call => call

/-- What is left of a call has the method, the path and the parameters of the call. -/
theorem EngineCall.bare_line (c : EngineCall) :
    c.bare.method = c.method ∧ c.bare.path = c.path ∧ c.bare.parameters = c.parameters := by
  cases c <;> exact ⟨rfl, rfl, rfl⟩

/-- A request without its headers. -/
def Request.bare : Request → Request
  | web r => web { r with headers := [] }
  | engine e call => engine e call.bare

/-- A server that does not look at headers. -/
def Server.HeaderBlind (server : Server) : Prop :=
  ∀ log log' : List Request, log.map Request.bare = log'.map Request.bare →
    server log = server log'

/-! ### Where secrets belong -/

/-- The addresses at which a run speaks to the source host. -/
inductive Settings.AsksHost (s : Settings) : String → Prop where
  | pullRequest {url : String} (h : s.pr.requestUrl = some url) : AsksHost s url
  | comments {url address : String} (h : s.pr.requestUrl = some url)
    (hcomments : SourceHost.commentsUrl url = .ok address) : AsksHost s address
  | commit (commit : String) :
    AsksHost s (SourceHost.commitUrl s.endpoints.toolchainRepoApi commit)

/-- The addresses at which a run speaks to the scheduler. -/
def Settings.AsksScheduler (s : Settings) (address : String) : Prop :=
  ∃ path, address = Text.stripEnd '/' s.endpoints.jenkinsUrl ++ path

/-- The value of the header for the source host. -/
def SourceHost.authorization (token : String) : String := "token " ++ token

/-- The value of the header for the scheduler. -/
def Scheduler.authorization (user token : String) : String :=
  "Basic " ++ String.ofList (Base64.encode (Text.encode (user ++ ":" ++ token)))

/-- The requests of two runs with secrets `k` and `k'`: they are the same, or they differ in the
header in which a secret belongs. -/
inductive Request.AlikeBut (s : Settings) (k k' : Secrets) : Request → Request → Prop where
  | same (q : Request) : AlikeBut s k k' q q
  | pull (e : EngineEndpoint) {repository tag user : String}
    (registry : registryOf (Engine.tagged repository tag) = defaultRegistry)
    (named : s.dockerhubUser = some user) :
    AlikeBut s k k'
      (.engine e (.pull repository tag (some ⟨user, k.dockerhubToken, defaultRegistry⟩)))
      (.engine e (.pull repository tag (some ⟨user, k'.dockerhubToken, defaultRegistry⟩)))
  | push (e : EngineEndpoint) {repository tag user : String}
    (registry : registryOf (Engine.tagged repository tag) = defaultRegistry)
    (named : s.dockerhubUser = some user) :
    AlikeBut s k k'
      (.engine e (.push repository tag (some ⟨user, k.dockerhubToken, defaultRegistry⟩)))
      (.engine e (.push repository tag (some ⟨user, k'.dockerhubToken, defaultRegistry⟩)))
  | host {address : String} {r r' : Web.Request} (asked : s.AsksHost address)
    (there : r.GoesTo address)
    (values : Apart (SourceHost.authorization k.githubToken)
      (SourceHost.authorization k'.githubToken) r r') : AlikeBut s k k' (.web r) (.web r')
  | scheduler {address : String} {r r' : Web.Request} (asked : s.AsksScheduler address)
    (there : r.GoesTo address)
    (values : Apart (Scheduler.authorization s.endpoints.jenkinsUser k.jenkinsToken)
      (Scheduler.authorization s.endpoints.jenkinsUser k'.jenkinsToken) r r') :
    AlikeBut s k k' (.web r) (.web r')

variable {s : Settings} {k k' : Secrets} {env : Environment}

namespace Request.AlikeBut

instance : Std.Refl (AlikeBut s k k') := ⟨.same⟩

/-- Without their headers there is no difference. -/
theorem bare_eq {q q' : Request} (h : AlikeBut s k k' q q') : q.bare = q'.bare := by
  cases h with
  | same => rfl
  | pull e registry named => rfl
  | push e registry named => rfl
  | host asked there values =>
    cases values
    rfl
  | scheduler asked there values =>
    cases values
    rfl

theorem map_bare_eq {log log' : List Request} (h : List.Forall₂ (AlikeBut s k k') log log') :
    log.map Request.bare = log'.map Request.bare := by
  induction h with
  | nil => rfl
  | cons hq _ ih => rw [List.map_cons, List.map_cons, hq.bare_eq, ih]

theorem of_host {address : String} (asked : s.AsksHost address) {r r' : Web.Request}
    (h : Twin address (SourceHost.authorization k.githubToken)
      (SourceHost.authorization k'.githubToken) r r') : AlikeBut s k k' (.web r) (.web r') := by
  cases h with
  | same => exact .same _
  | apart there values => exact .host asked there values

theorem of_scheduler {address : String} (asked : s.AsksScheduler address)
    {r r' : Web.Request} (h : Twin address
      (Scheduler.authorization s.endpoints.jenkinsUser k.jenkinsToken)
      (Scheduler.authorization s.endpoints.jenkinsUser k'.jenkinsToken) r r') :
    AlikeBut s k k' (.web r) (.web r') := by
  cases h with
  | same => exact .same _
  | apart there values => exact .scheduler asked there values

end Request.AlikeBut

open Request (AlikeBut)

theorem Server.HeaderBlind.respects {server : Server} (h : server.HeaderBlind) :
    server.Respects (AlikeBut s k k') :=
  fun _ _ hlog => h _ _ (AlikeBut.map_bare_eq hlog)

/-! ### The source host -/

namespace SourceHost

theorem isHeaderValue_authorization {token : String} (h : Web.isHeaderValue token = true) :
    Web.isHeaderValue (authorization token) = true := by
  rw [authorization, Web.isHeaderValue, String.toList_append, List.all_append, Bool.and_eq_true]
  exact ⟨by decide, h⟩

/-- Requests for one address with two tokens differ in the token's header. -/
theorem agree_request (method : Web.Method) (address token token' : String) :
    Agree (Twin address (authorization token) (authorization token'))
      ((⟨some token⟩ : SourceHost).request method address)
      ((⟨some token'⟩ : SourceHost).request method address) := by
  unfold request
  cases hr : Fetch.request method address with
  | error e => exact .error e
  | ok r =>
    have there : r.GoesTo address := Fetch.goesTo_of_request hr
    have values := Apart.of_authorization (r.withHeader "accept" "application/json")
      (authorization token) (authorization token')
    exact .ok (.apart there (values.withHeader "user-agent" userAgent))

section

variable (hk : Web.isHeaderValue k.githubToken = true)
  (hk' : Web.isHeaderValue k'.githubToken = true)
include hk hk'

/-- What is asked of the source host is asked in lockstep. -/
theorem lockstep_json {α : Type} {address : String} (asked : s.AsksHost address)
    (read : Json → Option α) {r r' : Web.Request}
    (h : Twin address (authorization k.githubToken) (authorization k'.githubToken) r r') :
    Lockstep (AlikeBut s k k') Eq (Fetch.json read r) (Fetch.json read r') :=
  Fetch.lockstep_json (fun _ _ => .of_host asked) (isHeaderValue_authorization hk)
    (isHeaderValue_authorization hk') read h

theorem lockstep_mergeability {url : String} (asked : s.AsksHost url) :
    Lockstep (AlikeBut s k k') Eq ((⟨some k.githubToken⟩ : SourceHost).mergeability url)
      ((⟨some k'.githubToken⟩ : SourceHost).mergeability url) :=
  (Lockstep.done (agree_request .get url _ _)).bind fun _ _ =>
    lockstep_json hk hk' asked readPullRequest

theorem lockstep_commitDate (commit : String) :
    Lockstep (AlikeBut s k k') Eq
      ((⟨some k.githubToken⟩ : SourceHost).commitDate s.endpoints.toolchainRepoApi commit)
      ((⟨some k'.githubToken⟩ : SourceHost).commitDate s.endpoints.toolchainRepoApi commit) :=
  (Lockstep.done (agree_request .get _ _ _)).bind fun _ _ =>
    lockstep_json hk hk' (.commit commit) readCommit

theorem lockstep_postComment {address : String} (asked : s.AsksHost address) (text : String) :
    Lockstep (AlikeBut s k k') Eq
      ((⟨some k.githubToken⟩ : SourceHost).postComment address text)
      ((⟨some k'.githubToken⟩ : SourceHost).postComment address text) :=
  (Lockstep.done (agree_request .post address _ _)).bind fun _ _ hr =>
    lockstep_json hk hk' asked readComment (hr.withBody _)

end

end SourceHost

/-! ### The scheduler -/

/-- The scheduler of a run, with a token to speak to it. -/
def Settings.scheduler (s : Settings) (token : String) : Scheduler :=
  ⟨s.endpoints.jenkinsUrl, s.endpoints.jenkinsUser, token⟩

namespace Scheduler

/-- Requests for one address with two tokens differ in the token's header. -/
theorem agree_request (method : Web.Method) (address : String) :
    Agree (Twin address (authorization s.endpoints.jenkinsUser k.jenkinsToken)
        (authorization s.endpoints.jenkinsUser k'.jenkinsToken))
      ((s.scheduler k.jenkinsToken).request method address)
      ((s.scheduler k'.jenkinsToken).request method address) := by
  unfold request
  cases hr : Fetch.request method address with
  | error e => exact .error e
  | ok r =>
    have there : r.GoesTo address := Fetch.goesTo_of_request hr
    exact .ok (.apart there (.of_authorization r _ _))

/-- What is asked of the scheduler is asked in lockstep. -/
theorem lockstep_json {α : Type} {address : String} (asked : s.AsksScheduler address)
    (read : Json → Option α) {r r' : Web.Request}
    (h : Twin address (authorization s.endpoints.jenkinsUser k.jenkinsToken)
      (authorization s.endpoints.jenkinsUser k'.jenkinsToken) r r') :
    Lockstep (AlikeBut s k k') Eq (Fetch.json read r) (Fetch.json read r') :=
  Fetch.lockstep_json (fun _ _ => .of_scheduler asked) (Web.isHeaderValue_basic _)
    (Web.isHeaderValue_basic _) read h

theorem lockstep_runningBuilds :
    Lockstep (AlikeBut s k k') Eq (s.scheduler k.jenkinsToken).runningBuilds
      (s.scheduler k'.jenkinsToken).runningBuilds := by
  have asked : s.AsksScheduler (s.scheduler k.jenkinsToken).executorsUrl :=
    ⟨_, String.append_assoc ..⟩
  refine (Lockstep.done (agree_request .get _)).bind fun r r' hr => ?_
  exact (lockstep_json asked readComputers hr).andThen fun executables => .refl _

theorem asks_buildUrl (token name tail : String) (number : Nat) :
    s.AsksScheduler ((s.scheduler token).buildUrl name number ++ tail) := by
  simp only [buildUrl, String.append_assoc]
  exact ⟨_, rfl⟩

theorem lockstep_buildInfo (name : String) (number : Nat) :
    Lockstep (AlikeBut s k k') Eq ((s.scheduler k.jenkinsToken).buildInfo name number)
      ((s.scheduler k'.jenkinsToken).buildInfo name number) :=
  (Lockstep.done (agree_request .get _)).bind fun _ _ =>
    lockstep_json (asks_buildUrl _ name _ number) BuildInfo.ofJson?

theorem lockstep_crumb :
    Lockstep (AlikeBut s k k') Eq (s.scheduler k.jenkinsToken).crumb
      (s.scheduler k'.jenkinsToken).crumb := by
  unfold crumb
  refine Lockstep.andThen (Lockstep.attempt_eq ?_) fun crumb => .refl _
  exact (Lockstep.done (agree_request .get _)).bind fun _ _ => lockstep_json ⟨_, rfl⟩ readCrumb

theorem lockstep_stopBuild (name : String) (number : Nat) :
    Lockstep (AlikeBut s k k') Eq ((s.scheduler k.jenkinsToken).stopBuild name number)
      ((s.scheduler k'.jenkinsToken).stopBuild name number) := by
  have asked := asks_buildUrl (s := s) k.jenkinsToken name "/stop" number
  refine lockstep_crumb.andThen fun crumb => ?_
  refine (Lockstep.done (agree_request .post _)).bind fun r r' hr => ?_
  have hsend {q q' : Web.Request} (hq : Twin ((s.scheduler k.jenkinsToken).stopUrl name number)
      (authorization s.endpoints.jenkinsUser k.jenkinsToken)
      (authorization s.endpoints.jenkinsUser k'.jenkinsToken) q q') :
      Lockstep (AlikeBut s k k') Eq (Fetch.send q) (Fetch.send q') :=
    Fetch.lockstep_send (fun _ _ => .of_scheduler asked) (Web.isHeaderValue_basic _)
      (Web.isHeaderValue_basic _) hq
  cases crumb with
  | none => exact (hsend hr).andThen fun response => .refl _
  | some field => exact (hsend (hr.withHeader field.1 field.2)).andThen fun response => .refl _

theorem lockstep_stopMatching (job : String) (number : Nat) (name value : String)
    (builds : List RunningBuild) :
    Lockstep (AlikeBut s k k') Eq
      ((s.scheduler k.jenkinsToken).stopMatching job number name value builds)
      ((s.scheduler k'.jenkinsToken).stopMatching job number name value builds) := by
  induction builds with
  | nil => exact .refl _
  | cons build builds ih =>
    -- both runs have the same list and are told the same of a build, so they stop the same ones
    refine .ite (fun _ => ih) fun _ => ?_
    refine (lockstep_buildInfo build.name build.number).andThen fun info => ?_
    refine .ite (fun _ => ?_) fun _ => ih
    refine (lockstep_stopBuild build.name build.number).andThen fun _ => ?_
    exact ih.andThen fun stopped => .refl _

end Scheduler

/-! ### The registry's user -/

/-- The credentials that two runs have for an image: the same, or those of the registry's user. -/
inductive Credentials.AlikeBut (s : Settings) (k k' : Secrets) (image : String) :
    Option Credentials → Option Credentials → Prop where
  | same (c : Option Credentials) : AlikeBut s k k' image c c
  | user {user : String} (registry : registryOf image = defaultRegistry)
    (named : s.dockerhubUser = some user) :
    AlikeBut s k k' image (some ⟨user, k.dockerhubToken, defaultRegistry⟩)
      (some ⟨user, k'.dockerhubToken, defaultRegistry⟩)

instance (image : String) : Std.Refl (Credentials.AlikeBut s k k' image) := ⟨.same⟩

namespace Engine

variable {e : EngineEndpoint} {repository tag : String}

/-- The user's token serves for the default registry, and what is stored for all others. -/
theorem agree_find (t : Files.Tree) (image : String) :
    Agree (Credentials.AlikeBut s k k' image)
      ((Command.credentials (s.withSecrets k) env).find t env.here image)
      ((Command.credentials (s.withSecrets k') env).find t env.here image) := by
  simp only [CredentialSource.find, Command.credentials, CredentialSource.ofEnvironment,
    Settings.withSecrets, Option.map_some]
  cases huser : s.dockerhubUser with
  | none => exact .refl _
  | some user =>
    simp only [Option.bind_some]
    split
    next hregistry =>
      rw [hregistry]
      exact .ok (.user hregistry huser)
    next => exact .refl _

theorem lockstep_credentialsFor (image : String) :
    Lockstep (AlikeBut s k k') (Credentials.AlikeBut s k k' image)
      (credentialsFor (Command.credentials (s.withSecrets k) env) env image)
      (credentialsFor (Command.credentials (s.withSecrets k') env) env image) :=
  .look fun t => .done (agree_find t image)

/-- A call for two runs, with one answer. -/
theorem lockstep_call {c c' : EngineCall} (h : AlikeBut s k k' (.engine e c) (.engine e c')) :
    Lockstep (AlikeBut s k k') Eq (call e c) (call e c') :=
  .send h fun _ => .refl _

theorem lockstep_pull :
    Lockstep (AlikeBut s k k') Eq
      (pull e (Command.credentials (s.withSecrets k) env) env repository tag)
      (pull e (Command.credentials (s.withSecrets k') env) env repository tag) := by
  refine (lockstep_credentialsFor (tagged repository tag)).bind fun c c' hc => ?_
  have hcall : AlikeBut s k k' (.engine e (.pull repository tag c))
      (.engine e (.pull repository tag c')) := by
    cases hc with
    | same => exact .same _
    | user registry named => exact .pull e registry named
  exact ((lockstep_call hcall).mapError _).andThen fun reply => .refl _

theorem lockstep_push :
    Lockstep (AlikeBut s k k') Eq
      (push e (Command.credentials (s.withSecrets k) env) env repository tag)
      (push e (Command.credentials (s.withSecrets k') env) env repository tag) := by
  refine .after fun _ => ?_
  refine (lockstep_credentialsFor (tagged repository tag)).bind fun c c' hc => ?_
  have hcall : AlikeBut s k k' (.engine e (.push repository tag c))
      (.engine e (.push repository tag c')) := by
    cases hc with
    | same => exact .same _
    | user registry named => exact .push e registry named
  refine .after fun _ => ?_
  exact ((lockstep_call hcall).mapError _).andThen fun reply => .refl _

theorem lockstep_publish (localTag arch : String) :
    Lockstep (AlikeBut s k k') Eq
      (publish e (Command.credentials (s.withSecrets k) env) env repository localTag arch)
      (publish e (Command.credentials (s.withSecrets k') env) env repository localTag arch) := by
  refine .after fun _ => ?_
  refine .after fun _ => ?_
  refine .after fun _ => ?_
  exact lockstep_push.attempt_eq.andThen fun pushed => .refl _

end Engine

/-! ### The commands -/

namespace Command

variable (hk : Web.isHeaderValue k.githubToken = true)
  (hk' : Web.isHeaderValue k'.githubToken = true) {e : EngineEndpoint}
include hk hk'

theorem lockstep_expectedProvenance (root : String) :
    Lockstep (AlikeBut s k k') Eq (expectedProvenance (s.withSecrets k) env root)
      (expectedProvenance (s.withSecrets k') env root) := by
  refine .after fun t => ?_
  refine .after fun commit => ?_
  refine (SourceHost.lockstep_commitDate hk hk' commit).attempt_eq.andThen fun date => ?_
  exact .refl _

theorem lockstep_reportOutOfDate :
    Lockstep (AlikeBut s k k') Eq (reportOutOfDate (s.withSecrets k))
      (reportOutOfDate (s.withSecrets k')) := by
  simp only [reportOutOfDate, Settings.withSecrets]
  cases hurl : s.pr.requestUrl with
  | none => exact .refl _
  | some url =>
    cases hcomments : SourceHost.commentsUrl url with
    | error error =>
      simp only [hcomments]
      exact .refl _
    | ok address =>
      simp only [hcomments]
      refine (SourceHost.lockstep_postComment hk hk' (.comments hurl hcomments) _).attempt_eq.andThen
        fun comment => ?_
      exact .refl _

theorem lockstep_mergeable :
    Lockstep (AlikeBut s k k') Eq (mergeable (s.withSecrets k)) (mergeable (s.withSecrets k')) := by
  simp only [mergeable, Settings.withSecrets]
  cases hurl : s.pr.requestUrl with
  | none => exact .refl _
  | some url =>
    refine (SourceHost.lockstep_mergeability hk hk' (.pullRequest hurl)).attempt_eq.andThen
      fun state => ?_
    exact .refl _

omit hk hk' in
theorem lockstep_settlePlan (expected : Toolchain.Provenance) (localMatch : Bool)
    (remote : Option Labels) (repository pr : String) :
    Lockstep (AlikeBut s k k') Eq
      (settlePlan e (s.withSecrets k) env expected localMatch remote repository pr)
      (settlePlan e (s.withSecrets k') env expected localMatch remote repository pr) := by
  unfold settlePlan
  split
  · have hpull : Lockstep (AlikeBut s k k') Eq (pullAndTag e (s.withSecrets k) env repository pr)
        (pullAndTag e (s.withSecrets k') env repository pr) :=
      Engine.lockstep_pull.andThen fun _ => .refl _
    refine hpull.attempt_eq.andThen fun pulled => ?_
    exact .refl _
  · exact .refl _

theorem lockstep_carryOut (root repository pr reference : String)
    (expected : Toolchain.Provenance) (kind : ImageKind) (plan : Except Refusal Toolchain.Plan) :
    Lockstep (AlikeBut s k k') Eq
      (carryOut e (s.withSecrets k) env root repository pr reference expected kind plan)
      (carryOut e (s.withSecrets k') env root repository pr reference expected kind plan) := by
  cases plan with
  | error refusal =>
    refine .ite (fun _ => ?_) fun _ => .refl _
    exact (lockstep_reportOutOfDate hk hk').andThen fun _ => .refl _
  | ok plan =>
    -- the plan alone says what is done, and no secret has a part in it
    cases plan with
    | reuse => exact .refl _
    | pull => exact .refl _
    | build => exact .refl _

theorem lockstep_makeAllReady (root user pr : String) (expected : Toolchain.Provenance)
    (kinds : List ImageKind) :
    Lockstep (AlikeBut s k k') Eq
      (makeAllReady e (s.withSecrets k) env root user pr expected kinds)
      (makeAllReady e (s.withSecrets k') env root user pr expected kinds) := by
  induction kinds with
  | nil => exact .refl _
  | cons kind kinds ih =>
    refine Lockstep.andThen ?_ fun _ => ih
    refine .after fun _ => ?_
    refine .after fun _ => ?_
    refine .after fun found => ?_
    refine .after fun remote => ?_
    refine (lockstep_settlePlan expected _ remote _ pr).andThen fun plan => ?_
    exact lockstep_carryOut hk hk' root _ pr _ expected kind plan

theorem lockstep_llvm (root : String) :
    Lockstep (AlikeBut s k k') Eq (llvm (s.withSecrets k) env root)
      (llvm (s.withSecrets k') env root) := by
  refine .after fun user => ?_
  refine .after fun pr => ?_
  refine (lockstep_expectedProvenance hk hk' root).andThen fun expected => ?_
  refine .after fun _ => ?_
  refine .after fun _ => ?_
  refine .after fun _ => ?_
  refine .after fun _ => ?_
  refine .after fun e => ?_
  exact lockstep_makeAllReady hk hk' root user pr expected ImageKind.toolchain

theorem lockstep_publishImages (user pr : String) (kinds : List ImageKind) :
    Lockstep (AlikeBut s k k') Eq (publishImages e (s.withSecrets k) env user pr kinds)
      (publishImages e (s.withSecrets k') env user pr kinds) := by
  induction kinds with
  | nil => exact .refl _
  | cons kind kinds ih =>
    refine Lockstep.andThen ?_ fun _ => ih
    refine .after fun _ => ?_
    refine .after fun _ => ?_
    refine .after fun labels => ?_
    refine .after fun localLabels => ?_
    refine .after fun remote => ?_
    refine (lockstep_mergeable hk hk').andThen fun mergeable => ?_
    refine .ite (fun _ => ?_) fun _ => .refl _
    refine .after fun _ => ?_
    exact ((Engine.lockstep_publish _ _).mapError _).andThen fun pushed => .refl _

theorem lockstep_publish :
    Lockstep (AlikeBut s k k') Eq (publish (s.withSecrets k) env)
      (publish (s.withSecrets k') env) := by
  refine .after fun user => ?_
  refine .after fun pr => ?_
  refine .after fun e => ?_
  refine .after fun _ => ?_
  exact lockstep_publishImages hk hk' user pr ImageKind.all

omit hk hk' in
theorem lockstep_stopPrevious :
    Lockstep (AlikeBut s k k') Eq (stopPrevious (s.withSecrets k))
      (stopPrevious (s.withSecrets k')) := by
  refine .after fun pr => ?_
  refine .after fun job => ?_
  refine .after fun number => ?_
  refine Lockstep.bind (V := fun token token' => token = k.jenkinsToken ∧ token' = k'.jenkinsToken)
    (.done (.ok ⟨rfl, rfl⟩)) ?_
  rintro _ _ ⟨rfl, rfl⟩
  have hstopped : Lockstep (AlikeBut s k k') Eq
      ((s.scheduler k.jenkinsToken).stopPrevious job number Variable.prNumber pr)
      ((s.scheduler k'.jenkinsToken).stopPrevious job number Variable.prNumber pr) :=
    Scheduler.lockstep_runningBuilds.andThen fun builds =>
      Scheduler.lockstep_stopMatching job number Variable.prNumber pr builds
  exact (hstopped.mapError Failure.service).andThen fun stopped => .refl _

end Command

namespace Verb

variable (hk : Web.isHeaderValue k.githubToken = true)
  (hk' : Web.isHeaderValue k'.githubToken = true)
include hk hk'

/-- A command with other secrets is in lockstep with itself. -/
theorem lockstep_command (verb : Verb) :
    Lockstep (AlikeBut s k k') Eq (verb.command (s.withSecrets k) env)
      (verb.command (s.withSecrets k') env) := by
  cases verb with
  | llvm => exact Command.lockstep_llvm hk hk' env.directory
  | publish => exact Command.lockstep_publish hk hk'
  | stopPrevious => exact Command.lockstep_stopPrevious
  -- the others look at no secret
  | build => exact .refl _
  | prepare => exact .refl _
  | cleanup => exact .refl _
  | version => exact .refl _

/-- A command, run from some files with some secrets. -/
def runWith (verb : Verb) (s : Settings) (env : Environment) (server : Server) (t : Files.Tree)
    (k : Secrets) : Except Failure Unit × World :=
  (verb.command (s.withSecrets k) env).run server ⟨[], "", t⟩

/-- **Secrets stay in their headers.**  Two runs of a command have the same settings but for the
secrets, and the tokens for the source host can stand in a header.  If the server does not look at
headers, the runs end alike, send the same requests but for headers, print the same and leave the
same files.  Of the headers those for the registry differ where an image of the default registry is
pulled or pushed, and those named authorization in requests to the source host and to the
scheduler. -/
theorem secrets_stay_in_headers (verb : Verb) (s : Settings) (env : Environment) (t : Files.Tree)
    {server : Server} (hserver : server.HeaderBlind) :
    let run := verb.runWith s env server t
    (run k).1 = (run k').1 ∧
      (run k).2.requests.map Request.bare = (run k').2.requests.map Request.bare ∧
      (run k).2.Alike (AlikeBut s k k') (run k').2 := by
  have hstart : World.Alike (AlikeBut s k k') ⟨[], "", t⟩ ⟨[], "", t⟩ := ⟨.nil, rfl, rfl⟩
  have hlockstep : Lockstep (AlikeBut s k k') Eq (verb.command (s.withSecrets k) env)
      (verb.command (s.withSecrets k') env) := lockstep_command hk hk' verb
  obtain ⟨hresult, hworld⟩ := hlockstep.run hserver.respects hstart
  exact ⟨hresult.eq, AlikeBut.map_bare_eq hworld.requests, hworld⟩

end Verb

/-! A publication, before and after the secrets are renewed.  The pull request can be merged. -/

namespace Renewed

def settings : Settings where
  dockerSocket := some "tcp://localhost:2375"
  cpuArch := Settings.hostArch
  dockerhubUser := some "user"
  dockerhubToken := none
  githubToken := none
  build := ⟨none, none, none, none, .unknown⟩
  pr := ⟨some "7", some .opened, false, .other "", some "https://localhost/pulls/7"⟩
  endpoints := {}

def environment : Environment := ⟨"/", fun _ => none⟩

def before : Secrets := ⟨"a", "b", "c"⟩

def after : Secrets := ⟨"d", "e", "f"⟩

/-- What is answered to a request without its headers.  Of the images only the first is there. -/
def reply : Request → Answer
  | .engine _ (.inspect "user/onnx-mlir-llvm-static:7") => .reply ⟨200, none, .text
      ("\x7b\"Config\":\x7b\"Labels\":\x7b\"llvm_project_sha1\":\"a\","
        ++ "\"llvm_project_sha1_date\":\"2024-01-01T00:00:00Z\","
        ++ "\"llvm_project_dockerfile_sha1\":\"a\"\x7d\x7d\x7d")⟩
  | .engine _ (.removeImage _) => .reply ⟨200, none, .text "[]"⟩
  | .engine _ _ => .reply ⟨200, none, .stream [] true⟩
  | .web _ => .reply ⟨200, none, .text "\x7b\"mergeable_state\":\"clean\"\x7d"⟩

def server : Server := fun log => ((log.map Request.bare).getLast?.map reply).getD .unreachable

theorem headerBlind : server.HeaderBlind :=
  fun _ _ h => congrArg (fun requests => (requests.getLast?.map reply).getD .unreachable) h

/-- The values of the authorization headers, and the passwords for the registry. -/
def values : Request → List String
  | .web r => (r.headers.filter fun header => header.1 = "authorization").map fun header => header.2
  | .engine _ (.push _ _ (some c)) => [c.password]
  | .engine _ _ => []

end Renewed

namespace Verb

open Renewed

/-- An image is published, and the two headers with secrets are all that is new. -/
theorem secrets_stay_in_headers_renewed :
    let run := publish.runWith Renewed.settings environment server .empty
    ((run before).1 = (run after).1 ∧
      (run before).2.requests.map Request.bare = (run after).2.requests.map Request.bare ∧
      (run before).2.Alike (AlikeBut Renewed.settings before after) (run after).2) ∧
    (run before).2.requests.flatMap values = ["token b", "a"] ∧
    (run after).2.requests.flatMap values = ["token e", "d"] :=
  ⟨secrets_stay_in_headers (by decide) (by decide) publish Renewed.settings environment .empty
    headerBlind, by decide +kernel, by decide +kernel⟩

end Verb

end ImagePipeline
