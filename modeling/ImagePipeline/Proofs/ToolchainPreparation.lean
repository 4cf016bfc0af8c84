import ImagePipeline.Command.Toolchain
import ImagePipeline.Proofs.CommandTranscript
import ImagePipeline.Proofs.ServiceTranscript
import ImagePipeline.Proofs.TextPieces
import ImagePipeline.Proofs.ToolchainPlan

/-!
# How toolchain images are made ready

For each toolchain image the engine is searched for one that fits.  Without one the labels of the
registry's image are looked up, and the plan is made: use what is there, pull, build, or refuse
because the pull request is out of date.  A pull that fails settles for a build.

* `Preparation`: the exchanges made for one image, in four stages.
* `PullAndTag`, `Report`: the ways a pull with its naming and a report can go.
* `Lookup`, `Settled`, `CarriedOut`: what each stage exchanges, by what the stage before has
  found out.
* `Preparation.Conducted`: the ways a preparation can go; `conducted_of_yields` finds it in a
  transcript.
* `llvm_prepares`: what the log of a run says about searches, pulls, builds and refusals.
-/

namespace ImagePipeline

open Files (Tree)
open Program

namespace Request

/-- A request to the engine to pull an image. -/
def isPull : Request → Bool
  | .engine _ (.pull _ _ _) => true
  | _ => false

/-- A request to the engine to name an image. -/
def isTag : Request → Bool
  | .engine _ (.tagImage _ _ _) => true
  | _ => false

/-- A request to the engine to build an image. -/
def isBuild : Request → Bool
  | .engine _ (.build _ _ _ _) => true
  | _ => false

/-- A request that makes an image or a name for one. -/
def provides (q : Request) : Bool := q.isPull || q.isTag || q.isBuild

theorem IsWeb.provides_eq {q : Request} (h : q.IsWeb) : q.provides = false := by
  cases q with
  | web request => rfl
  | engine endpoint call => exact h.elim

theorem isPull_eq_false {q : Request} (h : q.provides = false) : q.isPull = false := by
  rw [provides, Bool.or_eq_false_iff, Bool.or_eq_false_iff] at h
  exact h.1.1

theorem isBuild_eq_false {q : Request} (h : q.provides = false) : q.isBuild = false := by
  rw [provides, Bool.or_eq_false_iff] at h
  exact h.2

theorem countP_eq_zero {test : Request → Bool} {es : List Exchange}
    (h : ∀ x ∈ es, test x.request = false) : es.countP (fun x => test x.request) = 0 := by
  refine List.countP_eq_zero.2 fun x hx => ?_
  rw [h x hx]
  exact Bool.false_ne_true

end Request

namespace Command

/-! ## The stages -/

/-- The ways in which a pull and the naming of what was pulled can go. -/
inductive PullAndTag (e : EngineEndpoint) (s : Settings) (env : Environment)
    (repository pr : String) (t : Tree) : List Exchange → Except ImageError Unit → Prop where
  /-- The credentials cannot be found out. -/
  | refused {error : ImageError}
      (hcredentials : (credentials s env).find t env.here (Engine.tagged repository s.cpuArch) =
        .error error) :
      PullAndTag e s env repository pr t [] (.error error)
  /-- The engine fails to pull, by its status or in the stream of its answer. -/
  | unpulled {sender : Option Credentials} {answer : Answer} {error : ImageError}
      (hcredentials : (credentials s env).find t env.here (Engine.tagged repository s.cpuArch) =
        .ok sender)
      (hpull : Engine.pullOutcome (Engine.tagged repository s.cpuArch) answer = .error error) :
      PullAndTag e s env repository pr t
        [⟨.engine e (.pull repository s.cpuArch sender), answer⟩] (.error error)
  /-- The image is pulled, and the engine is told to name it. -/
  | pulled {sender : Option Credentials} {answer naming : Answer}
      (hcredentials : (credentials s env).find t env.here (Engine.tagged repository s.cpuArch) =
        .ok sender)
      (hpull : Engine.pullOutcome (Engine.tagged repository s.cpuArch) answer = .ok ()) :
      PullAndTag e s env repository pr t
        [⟨.engine e (.pull repository s.cpuArch sender), answer⟩,
          ⟨.engine e (.tagImage (Engine.tagged repository s.cpuArch) repository pr), naming⟩]
        (Engine.tagOutcome (Engine.tagged repository s.cpuArch) naming)

/-- The lookup of the registry's labels, which is made only if no image was found. -/
inductive Lookup (s : Settings) (repository : String) (t : Tree) :
    List String → List Exchange → Option Labels → Prop where
  | spared {id : String} {ids : List String} : Lookup s repository t (id :: ids) [] none
  | made {es : List Exchange} {published : Except ServiceError Labels}
      (hasked : (Registry.ofEndpoints s.endpoints).Asked repository s.cpuArch t es)
      (hes : ((Registry.ofEndpoints s.endpoints).labels repository s.cpuArch).Yields t es t
        published) :
      Lookup s repository t [] es published.toOption

/-- How the first plan is settled: one to pull is tried, and gives way to a build if that fails in
any way; any other stands. -/
inductive Settled (e : EngineEndpoint) (s : Settings) (env : Environment)
    (repository pr : String) (t : Tree) (first : Except Refusal Toolchain.Plan) :
    List Exchange → Except Refusal Toolchain.Plan → Prop where
  | kept (hfirst : first ≠ .ok .pull) : Settled e s env repository pr t first [] first
  | pulled {es : List Exchange} (hfirst : first = .ok .pull)
      (hes : PullAndTag e s env repository pr t es (.ok ())) :
      Settled e s env repository pr t first es (.ok .pull)
  | fellBack {es : List Exchange} {error : ImageError} (hfirst : first = .ok .pull)
      (hes : PullAndTag e s env repository pr t es (.error error)) :
      Settled e s env repository pr t first es (.ok .build)

/-- The report to a pull request that is out of date.  The address of a pull request ends in
`/pulls/` and a number, with any slashes after it; there is a report to no other. -/
inductive Report (s : Settings) : List Exchange → Prop where
  | spared (hurl : s.pr.requestUrl = none) : Report s []
  | unaddressed {url : String} {error : ServiceError} (hurl : s.pr.requestUrl = some url)
      (hcomments : SourceHost.commentsUrl url = .error error) : Report s []
  | posted {url : String} {before number : List Char} {slashes : Nat} {es : List Exchange}
      (hurl : s.pr.requestUrl = some url)
      (haddress : url.toList =
        before ++ "/pulls/".toList ++ number ++ List.replicate slashes '/')
      (hnumber : number ≠ [] ∧ ∀ c ∈ number, (Decimal.digit? c).isSome)
      (hes : Fetch.Begun (SourceHost.commentRequest ⟨s.githubToken⟩
        (String.ofList before ++ "/issues/" ++ String.ofList number ++ "/comments")
        outOfDateComment) es) :
      Report s es

/-- What comes of a plan: an image that is used or was pulled is shown, one that is to be built
goes through the build step, and a refusal is reported and ends the preparation. -/
inductive CarriedOut (e : EngineEndpoint) (s : Settings) (env : Environment)
    (root reference pr : String) (expected : Toolchain.Provenance) (kind : ImageKind) (t : Tree) :
    Except Refusal Toolchain.Plan → List Exchange → Except Failure Unit → Prop where
  | shown {plan : Toolchain.Plan} {answer : Answer} (hplan : plan ≠ .build) :
      CarriedOut e s env root reference pr expected kind t (.ok plan)
        [⟨.engine e (.inspect reference), answer⟩]
        (((Engine.toldId reference answer).mapError .image).map fun _ => ())
  | built {args : BuildArgs} {es : List Exchange} {r : Except Failure String}
      (hargs : expected.buildArgs kind pr = .ok args)
      (hes : BuildStep e env root kind reference args t es r) :
      CarriedOut e s env root reference pr expected kind t (.ok .build) es (r.map fun _ => ())
  | refused {es : List Exchange} (hes : Report s es) :
      CarriedOut e s env root reference pr expected kind t (.error .sourceOutOfDate) es
        (.error (.refusal .sourceOutOfDate))

variable {e : EngineEndpoint} {s : Settings} {env : Environment} {root user pr : String}
  {expected : Toolchain.Provenance} {t t' : Tree} {es : List Exchange}

theorem pullAndTag_of_yields {repository : String} {r : Except ImageError Unit}
    (h : (pullAndTag e s env repository pr).Yields t es t' r) :
    t' = t ∧ PullAndTag e s env repository pr t es r := by
  unfold pullAndTag at h
  rw [Engine.tag_eq] at h
  rcases yields_bind.1 h with ⟨error, h₁, rfl⟩ | ⟨⟨⟩, es₁, t₁, es₂, h₁, h₂, rfl⟩
  · obtain ⟨rfl, ⟨_, hcredentials, rfl, he⟩ | ⟨sender, answer, hcredentials, rfl, hpull⟩⟩ :=
      Engine.yields_pull.1 h₁
    · cases he
      exact ⟨rfl, .refused hcredentials⟩
    · exact ⟨rfl, .unpulled hcredentials hpull.symm⟩
  · obtain ⟨naming, rfl, rfl, rfl⟩ := yields_ask.1 h₂
    obtain ⟨rfl, ⟨_, -, -, he⟩ | ⟨sender, answer, hcredentials, rfl, hpull⟩⟩ :=
      Engine.yields_pull.1 h₁
    · cases he
    · exact ⟨rfl, .pulled hcredentials hpull.symm⟩

theorem lookup_of_yields_labelsToPlan {ids : List String} {repository : String}
    {r : Except Failure (Option Labels)}
    (h : (labelsToPlan s (!ids.isEmpty) repository).Yields t es t' r) :
    t' = t ∧ ∃ remote, r = .ok remote ∧ Lookup s repository t ids es remote := by
  cases ids with
  | cons id ids =>
    obtain ⟨rfl, rfl, rfl⟩ := yields_pure.1 h
    exact ⟨rfl, none, rfl, .spared⟩
  | nil =>
    have hlabels : labelsToPlan s (!([] : List String).isEmpty) repository =
        remoteLabels s repository := rfl
    rw [hlabels, remoteLabels] at h
    obtain ⟨published, es₁, t₁, es₂, h₁, h₂, rfl⟩ := yields_attempt_bind.1 h
    obtain ⟨rfl, rfl, rfl⟩ := yields_pure.1 h₂
    obtain ⟨rfl, hasked⟩ := Registry.asked_of_yields_labels h₁
    rw [List.append_nil]
    exact ⟨rfl, _, rfl, .made hasked h₁⟩

theorem settled_of_yields {localMatch : Bool} {remote : Option Labels} {repository : String}
    {r : Except Failure (Except Refusal Toolchain.Plan)}
    (h : (settlePlan e s env expected localMatch remote repository pr).Yields t es t' r) :
    t' = t ∧ ∃ settled, r = .ok settled ∧
      Settled e s env repository pr t (Toolchain.plan expected localMatch remote false) es
        settled := by
  unfold settlePlan at h
  by_cases hfirst : Toolchain.plan expected localMatch remote false = .ok .pull
  · rw [hfirst] at h ⊢
    obtain ⟨outcome, es₁, t₁, es₂, h₁, h₂, rfl⟩ := yields_attempt_bind.1 h
    obtain ⟨rfl, htransfer⟩ := pullAndTag_of_yields h₁
    cases outcome with
    | ok =>
      obtain ⟨rfl, rfl, rfl⟩ := yields_pure.1 h₂
      rw [List.append_nil]
      exact ⟨rfl, _, rfl, .pulled rfl htransfer⟩
    | error error =>
      obtain ⟨rfl, rfl, rfl⟩ := yields_pure.1 h₂
      obtain ⟨rfl, -⟩ := Toolchain.plan_eq_pull hfirst
      rw [List.append_nil, Toolchain.plan_pullFailed]
      exact ⟨rfl, _, rfl, .fellBack rfl htransfer⟩
  · have hkept : es = [] ∧ t' = t ∧
        r = .ok (Toolchain.plan expected localMatch remote false) := by
      generalize Toolchain.plan expected localMatch remote false = first at h hfirst
      match first with
      | .ok .pull => exact absurd rfl hfirst
      | .ok .reuse => exact yields_pure.1 h
      | .ok .build => exact yields_pure.1 h
      | .error refusal => exact yields_pure.1 h
    obtain ⟨rfl, rfl, rfl⟩ := hkept
    exact ⟨rfl, _, rfl, .kept hfirst⟩

theorem pullRequestParts?_eq_some {url : String} {before number : List Char}
    (h : SourceHost.pullRequestParts? url = some (before, number)) :
    Text.stripEndChars '/' url.toList = before ++ "/pulls/".toList ++ number ∧
      number ≠ [] ∧ ∀ c ∈ number, (Decimal.digit? c).isSome := by
  unfold SourceHost.pullRequestParts? at h
  dsimp only at h
  generalize hstripped : Text.stripEndChars '/' url.toList = stripped at h ⊢
  split at h
  · cases h
  next hdigits =>
    obtain ⟨rest, hrest, hparts⟩ := Option.map_eq_some_iff.1 h
    obtain ⟨rfl, rfl⟩ := Prod.mk.inj hparts
    have hsplit := List.takeWhile_append_dropWhile (p := fun c => (Decimal.digit? c).isSome)
      (l := stripped.reverse)
    rw [Text.afterPrefix?_eq_some_iff.1 hrest] at hsplit
    have hreverse := congrArg List.reverse hsplit
    rw [List.reverse_append, List.reverse_append, List.reverse_reverse,
      List.reverse_reverse] at hreverse
    refine ⟨hreverse.symm, ?_, ?_⟩
    · simpa using hdigits
    · intro c hc
      exact List.all_eq_true.1 List.all_takeWhile c (List.mem_reverse.1 hc)

/-- The comments on a pull request have an address if that of the pull request ends in `/pulls/`
and a number, slashes aside. -/
theorem commentsUrl_eq_ok {url comments : String}
    (h : SourceHost.commentsUrl url = .ok comments) :
    ∃ before number slashes,
      url.toList = before ++ "/pulls/".toList ++ number ++ List.replicate slashes '/' ∧
      (number ≠ [] ∧ ∀ c ∈ number, (Decimal.digit? c).isSome) ∧
      comments = String.ofList before ++ "/issues/" ++ String.ofList number ++ "/comments" := by
  obtain ⟨slashes, hslashes⟩ := Text.exists_stripEndChars_append '/' url.toList
  unfold SourceHost.commentsUrl at h
  cases hparts : SourceHost.pullRequestParts? url with
  | none =>
    rw [hparts] at h
    cases h
  | some parts =>
    obtain ⟨before, number⟩ := parts
    rw [hparts] at h
    cases h
    obtain ⟨hstripped, hnumber⟩ := pullRequestParts?_eq_some hparts
    rw [hstripped] at hslashes
    exact ⟨before, number, slashes, hslashes, hnumber, rfl⟩

theorem report_of_yields {r : Except Failure Unit} (h : (reportOutOfDate s).Yields t es t' r) :
    t' = t ∧ r = .ok () ∧ Report s es := by
  unfold reportOutOfDate at h
  cases hurl : s.pr.requestUrl with
  | none =>
    rw [hurl] at h
    obtain ⟨rfl, rfl, rfl⟩ := yields_pure.1 h
    exact ⟨rfl, rfl, .spared hurl⟩
  | some url =>
    rw [hurl] at h
    cases hcomments : SourceHost.commentsUrl url with
    | error error =>
      simp only [hcomments] at h
      obtain ⟨rfl, rfl, rfl⟩ := yields_pure.1 h
      exact ⟨rfl, rfl, .unaddressed hurl hcomments⟩
    | ok comments =>
      simp only [hcomments] at h
      obtain ⟨_, es₁, t₁, es₂, h₁, h₂, rfl⟩ := yields_attempt_bind.1 h
      obtain ⟨rfl, rfl, rfl⟩ := yields_pure.1 h₂
      obtain ⟨rfl, hposted⟩ := SourceHost.begun_of_yields_postComment h₁
      obtain ⟨before, number, slashes, haddress, hnumber, rfl⟩ := commentsUrl_eq_ok hcomments
      rw [List.append_nil]
      exact ⟨rfl, rfl, .posted hurl haddress hnumber hposted⟩

theorem exists_buildArgs (expected : Toolchain.Provenance) {kind : ImageKind}
    (hkind : kind ∈ ImageKind.toolchain) (pr : String) :
    ∃ args, expected.buildArgs kind pr = .ok args := by
  simp only [ImageKind.toolchain, List.mem_cons, List.not_mem_nil, or_false] at hkind
  rcases hkind with rfl | rfl
  · exact ⟨_, rfl⟩
  · exact ⟨_, rfl⟩

theorem shown_of_yields {reference : String} {f : String → String} {r : Except Failure Unit}
    (h : (onImages (Engine.shortId e reference) >>= fun id =>
      Program.writeLine (f id)).Yields t es t' r) :
    t' = t ∧ ∃ answer, es = [⟨.engine e (.inspect reference), answer⟩] ∧
      r = ((Engine.toldId reference answer).mapError .image).map fun _ => () := by
  rw [onImages, Engine.shortId_eq, ask_mapError] at h
  obtain ⟨answer, rest, rfl, ⟨failure, hfailure, rfl, rfl, rfl⟩ | ⟨id, hid, h₁⟩⟩ :=
    yields_ask_bind.1 h
  · exact ⟨rfl, answer, rfl, by rw [hfailure]; rfl⟩
  · obtain ⟨rfl, rfl, rfl⟩ := yields_writeLine.1 h₁
    exact ⟨rfl, answer, rfl, by rw [hid]; rfl⟩

theorem carriedOut_of_yields {repository reference : String} {kind : ImageKind}
    (hkind : kind ∈ ImageKind.toolchain) {plan : Except Refusal Toolchain.Plan}
    (hplan : ∀ refusal, plan = .error refusal → refusal = .sourceOutOfDate)
    {r : Except Failure Unit}
    (h : (carryOut e s env root repository pr reference expected kind plan).Yields t es t' r) :
    t' = t ∧ CarriedOut e s env root reference pr expected kind t plan es r := by
  match plan with
  | .ok .reuse =>
    obtain ⟨rfl, answer, rfl, rfl⟩ := shown_of_yields h
    exact ⟨rfl, .shown nofun⟩
  | .ok .pull =>
    obtain ⟨rfl, answer, rfl, rfl⟩ := shown_of_yields h
    exact ⟨rfl, .shown nofun⟩
  | .ok .build =>
    obtain ⟨args, hargs⟩ := exists_buildArgs expected hkind pr
    unfold carryOut at h
    rw [hargs] at h
    rcases yields_ofExcept_bind.1 h with ⟨_, he, -⟩ | ⟨_, ha, h₁⟩
    · cases he
    cases ha
    rcases yields_bind.1 h₁ with ⟨failure, h₂, rfl⟩ | ⟨id, es₁, t₁, es₂, h₂, h₃, rfl⟩
    · obtain ⟨rfl, hbuild⟩ := buildStep_of_yields h₂
      exact ⟨rfl, .built hargs hbuild⟩
    · obtain ⟨rfl, rfl, rfl⟩ := yields_writeLine.1 h₃
      obtain ⟨rfl, hbuild⟩ := buildStep_of_yields h₂
      rw [List.append_nil]
      exact ⟨rfl, .built hargs hbuild⟩
  | .error refusal =>
    obtain rfl := hplan refusal rfl
    unfold carryOut at h
    dsimp only at h
    rw [if_pos rfl] at h
    rcases yields_bind.1 h with ⟨failure, h₁, rfl⟩ | ⟨⟨⟩, es₁, t₁, es₂, h₁, h₂, rfl⟩
    · cases (report_of_yields h₁).2.1
    · obtain ⟨rfl, rfl, rfl⟩ := yields_fail.1 h₂
      obtain ⟨rfl, -, hreport⟩ := report_of_yields h₁
      rw [List.append_nil]
      exact ⟨rfl, .refused hreport⟩

/-! ## Preparations -/

/-- What is exchanged to make one toolchain image ready. -/
structure Preparation where
  kind : ImageKind
  /-- What the engine tells about images that fit. -/
  search : Answer
  /-- The lookup of the registry's labels. -/
  lookup : List Exchange
  /-- The pull, and the naming of what was pulled. -/
  transfer : List Exchange
  /-- What carries out the plan. -/
  finish : List Exchange
  /-- The plan that was carried out, if one was made. -/
  settled : Option (Except Refusal Toolchain.Plan)

namespace Preparation

/-- The images that fit: under the name for the pull request, with the labels of the commit and
of the recipe. -/
def query (user pr : String) (expected : Toolchain.Provenance) (kind : ImageKind) : ImageQuery :=
  (ImageQuery.ofReference (Engine.tagged (kind.repository user) pr)).withLabels
    expected.labelFilters

/-- All exchanges of a preparation. -/
def exchanges (e : EngineEndpoint) (user pr : String) (expected : Toolchain.Provenance)
    (p : Preparation) : List Exchange :=
  ⟨.engine e (.listImages (query user pr expected p.kind)), p.search⟩ ::
    (p.lookup ++ (p.transfer ++ p.finish))

/-- The first plan, made from what the search and the lookup have found. -/
inductive FirstPlan (s : Settings) (user : String) (expected : Toolchain.Provenance) (t : Tree)
    (p : Preparation) : Except Refusal Toolchain.Plan → Prop where
  | intro {ids : List String} {remote : Option Labels}
      (hsearch : Engine.toldIds p.search = .ok ids)
      (hlookup : Lookup s (p.kind.repository user) t ids p.lookup remote) :
      FirstPlan s user expected t p (Toolchain.plan expected (!ids.isEmpty) remote false)

/-- The ways a preparation can go: the search fails, or there is a plan, which is settled and
carried out. -/
inductive Conducted (e : EngineEndpoint) (s : Settings) (env : Environment)
    (root user pr : String) (expected : Toolchain.Provenance) (t : Tree) (p : Preparation) :
    Except Failure Unit → Prop where
  | unsearched {error : ImageError} (hsearch : Engine.toldIds p.search = .error error)
      (hlookup : p.lookup = []) (htransfer : p.transfer = []) (hfinish : p.finish = [])
      (hplan : p.settled = none) :
      Conducted e s env root user pr expected t p (.error (.image error))
  | planned {first settled : Except Refusal Toolchain.Plan} {r : Except Failure Unit}
      (hfirst : p.FirstPlan s user expected t first)
      (hsettled : Settled e s env (p.kind.repository user) pr t first p.transfer settled)
      (hplan : p.settled = some settled)
      (hfinish : CarriedOut e s env root (Engine.tagged (p.kind.repository user) pr) pr expected
        p.kind t settled p.finish r) :
      Conducted e s env root user pr expected t p r

end Preparation

theorem Settled.refusal_eq {repository : String} {localMatch : Bool} {remote : Option Labels}
    {settled : Except Refusal Toolchain.Plan} {refusal : Refusal}
    (h : Settled e s env repository pr t (Toolchain.plan expected localMatch remote false) es
      settled) (hrefusal : settled = .error refusal) : refusal = .sourceOutOfDate := by
  cases h with
  | kept => exact Toolchain.plan_eq_error hrefusal
  | pulled => cases hrefusal
  | fellBack => cases hrefusal

theorem conducted_of_yields_makeReady {kind : ImageKind} (hkind : kind ∈ ImageKind.toolchain)
    {r : Except Failure Unit}
    (h : (makeReady e s env root user pr expected kind).Yields t es t' r) :
    t' = t ∧ ∃ p : Preparation, p.kind = kind ∧ es = p.exchanges e user pr expected ∧
      p.Conducted e s env root user pr expected t r := by
  unfold makeReady onImages at h
  dsimp only at h
  rw [yields_writeLine_bind, yields_writeLine_bind, Engine.find_eq, ask_mapError] at h
  obtain ⟨search, rest, rfl, hsearch⟩ := yields_ask_bind.1 h
  cases htold : Engine.toldIds search with
  | error error =>
    rw [htold] at hsearch
    rcases hsearch with ⟨failure, hfailure, rfl, rfl, rfl⟩ | ⟨_, hok, -⟩
    · cases hfailure
      exact ⟨rfl, ⟨kind, search, [], [], [], none⟩, rfl, rfl, .unsearched htold rfl rfl rfl rfl⟩
    · cases hok
  | ok ids =>
    rw [htold] at hsearch
    rcases hsearch with ⟨_, hfailure, -⟩ | ⟨_, hok, h₁⟩
    · cases hfailure
    cases hok
    rcases yields_bind.1 h₁ with ⟨_, h₂, -⟩ | ⟨_, lookup, t₁, es₂, h₂, h₃, rfl⟩
    · obtain ⟨-, _, hr, -⟩ := lookup_of_yields_labelsToPlan h₂
      cases hr
    obtain ⟨rfl, remote, hremote, hlookup⟩ := lookup_of_yields_labelsToPlan h₂
    cases hremote
    rcases yields_bind.1 h₃ with ⟨_, h₄, -⟩ | ⟨plan, transfer, t₂, finish, h₄, h₅, rfl⟩
    · obtain ⟨-, _, hr, -⟩ := settled_of_yields h₄
      cases hr
    obtain ⟨rfl, settled, hsettledOk, hsettled⟩ := settled_of_yields h₄
    cases hsettledOk
    obtain ⟨rfl, hfinish⟩ :=
      carriedOut_of_yields hkind (fun _ hrefusal => hsettled.refusal_eq hrefusal) h₅
    exact ⟨rfl, ⟨kind, search, lookup, transfer, finish, some plan⟩, rfl, rfl,
      .planned (.intro htold hlookup) hsettled rfl hfinish⟩

/-! ## What a preparation sends -/

theorem Lookup.provides_eq {repository : String} {ids : List String} {remote : Option Labels}
    (h : Lookup s repository t ids es remote) : ∀ x ∈ es, x.request.provides = false := by
  intro x hx
  cases h with
  | spared => exact absurd hx List.not_mem_nil
  | made _ hes => exact (hes.forall_request (Registry.only_isWeb_labels _ _ _) x hx).provides_eq

theorem Lookup.unique {repository : String} {ids : List String} {a b : Option Labels}
    (ha : Lookup s repository t ids es a) (hb : Lookup s repository t ids es b) : a = b := by
  cases ha with
  | spared =>
    cases hb
    rfl
  | made _ hes =>
    cases hb with
    | made _ hes' =>
      cases (hes.unique hes').2
      rfl

theorem Report.provides_eq (h : Report s es) : ∀ x ∈ es, x.request.provides = false := by
  intro x hx
  cases h with
  | spared => exact absurd hx List.not_mem_nil
  | unaddressed => exact absurd hx List.not_mem_nil
  | posted _ _ _ hes => exact (hes.forall_isWeb x hx).provides_eq

theorem PullAndTag.isBuild_eq {repository : String} {r : Except ImageError Unit}
    (h : PullAndTag e s env repository pr t es r) : ∀ x ∈ es, x.request.isBuild = false := by
  cases h <;> simp [Request.isBuild]

theorem PullAndTag.countP_isPull_le {repository : String} {r : Except ImageError Unit}
    (h : PullAndTag e s env repository pr t es r) : es.countP (·.request.isPull) ≤ 1 := by
  cases h <;> simp [Request.isPull]

/-- What is exchanged for a pull decides how it ends. -/
theorem PullAndTag.unique {repository : String} {r r' : Except ImageError Unit}
    (h : PullAndTag e s env repository pr t es r) (h' : PullAndTag e s env repository pr t es r') :
    r = r' := by
  cases h with
  | refused hcredentials =>
    cases h' with
    | refused hcredentials' =>
      cases hcredentials.symm.trans hcredentials'
      rfl
  | unpulled _ hpull =>
    cases h' with
    | unpulled _ hpull' =>
      cases hpull.symm.trans hpull'
      rfl
  | pulled =>
    cases h' with
    | pulled => rfl

theorem BuildStep.isPull_eq {reference : String} {kind : ImageKind} {args : BuildArgs}
    {r : Except Failure String} (h : BuildStep e env root kind reference args t es r) :
    ∀ x ∈ es, x.request.isPull = false := by
  cases h <;> simp [Request.isPull]

theorem BuildStep.countP_isBuild_le {reference : String} {kind : ImageKind} {args : BuildArgs}
    {r : Except Failure String} (h : BuildStep e env root kind reference args t es r) :
    es.countP (·.request.isBuild) ≤ 1 := by
  cases h <;> simp [Request.isBuild]

section Stages

variable {repository reference : String} {kind : ImageKind}
  {first settled : Except Refusal Toolchain.Plan} {r : Except Failure Unit}

theorem Settled.isBuild_eq (h : Settled e s env repository pr t first es settled) :
    ∀ x ∈ es, x.request.isBuild = false := by
  cases h with
  | kept => exact fun x hx => absurd hx List.not_mem_nil
  | pulled _ hes => exact hes.isBuild_eq
  | fellBack _ hes => exact hes.isBuild_eq

theorem Settled.countP_isPull_le (h : Settled e s env repository pr t first es settled) :
    es.countP (·.request.isPull) ≤ 1 := by
  cases h with
  | kept => exact Nat.zero_le 1
  | pulled _ hes => exact hes.countP_isPull_le
  | fellBack _ hes => exact hes.countP_isPull_le

/-- A plan that is not to pull sends nothing before it is carried out. -/
theorem Settled.of_ne_pull (h : Settled e s env repository pr t first es settled)
    (hfirst : first ≠ .ok .pull) : es = [] ∧ settled = first := by
  cases h with
  | kept => exact ⟨rfl, rfl⟩
  | pulled hpull => exact absurd hpull hfirst
  | fellBack hpull => exact absurd hpull hfirst

/-- A plan settles for a build exactly if it was to build, or was to pull and that failed. -/
theorem Settled.build_iff (h : Settled e s env repository pr t first es settled) :
    settled = .ok .build ↔ first = .ok .build ∨
      first = .ok .pull ∧ ∃ error, PullAndTag e s env repository pr t es (.error error) := by
  cases h with
  | kept hkept =>
    constructor
    · exact .inl
    · rintro (hbuild | ⟨hpull, -⟩)
      · exact hbuild
      · exact absurd hpull hkept
  | pulled hfirst hes =>
    constructor
    · exact nofun
    · rintro (hbuild | ⟨-, error, hfailed⟩)
      · cases hfirst.symm.trans hbuild
      · cases hes.unique hfailed
  | fellBack hfirst hes => exact ⟨fun _ => .inr ⟨hfirst, _, hes⟩, fun _ => rfl⟩

theorem Settled.eq_of_error {refusal : Refusal}
    (h : Settled e s env repository pr t first es (.error refusal)) :
    first = .error refusal := by
  cases h with
  | kept => rfl

theorem CarriedOut.exists_shown {plan : Toolchain.Plan}
    (h : CarriedOut e s env root reference pr expected kind t (.ok plan) es r)
    (hplan : plan ≠ .build) : ∃ answer, es = [⟨.engine e (.inspect reference), answer⟩] := by
  cases h with
  | shown => exact ⟨_, rfl⟩
  | built => exact absurd rfl hplan

theorem CarriedOut.exists_buildStep
    (h : CarriedOut e s env root reference pr expected kind t (.ok .build) es r) :
    ∃ args r₀, expected.buildArgs kind pr = .ok args ∧
      BuildStep e env root kind reference args t es r₀ ∧ r = r₀.map fun _ => () := by
  cases h with
  | shown hplan => exact absurd rfl hplan
  | built hargs hes => exact ⟨_, _, hargs, hes, rfl⟩

theorem CarriedOut.of_refused
    (h : CarriedOut e s env root reference pr expected kind t (.error .sourceOutOfDate) es r) :
    r = .error (.refusal .sourceOutOfDate) ∧ Report s es := by
  cases h with
  | refused hes => exact ⟨rfl, hes⟩

/-- Whatever else fails, it is not for being out of date. -/
theorem CarriedOut.settled_of_refusal
    (h : CarriedOut e s env root reference pr expected kind t settled es r)
    (hr : r = .error (.refusal .sourceOutOfDate)) : settled = .error .sourceOutOfDate := by
  cases h with
  | @shown _ answer =>
    cases htold : Engine.toldId reference answer with
    | error error =>
      rw [htold] at hr
      cases hr
    | ok =>
      rw [htold] at hr
      cases hr
  | built _ hes =>
    cases hes with
    | noContext => cases hr
    | failed => cases hr
    | @built _ _ inspection =>
      cases htold : Engine.toldId reference inspection with
      | error error =>
        rw [htold] at hr
        cases hr
      | ok =>
        rw [htold] at hr
        cases hr
  | refused => rfl

theorem CarriedOut.isPull_eq
    (h : CarriedOut e s env root reference pr expected kind t settled es r) :
    ∀ x ∈ es, x.request.isPull = false := by
  cases h with
  | shown => simp [Request.isPull]
  | built _ hes => exact hes.isPull_eq
  | refused hes => exact fun x hx => Request.isPull_eq_false (hes.provides_eq x hx)

theorem CarriedOut.countP_isBuild_le
    (h : CarriedOut e s env root reference pr expected kind t settled es r) :
    es.countP (·.request.isBuild) ≤ 1 := by
  cases h with
  | shown => simp [Request.isBuild]
  | built _ hes => exact hes.countP_isBuild_le
  | refused hes =>
    have hzero := Request.countP_eq_zero fun x hx => Request.isBuild_eq_false (hes.provides_eq x hx)
    exact le_of_eq_of_le hzero (Nat.zero_le 1)

/-- Only a plan to build builds. -/
theorem CarriedOut.provides_eq
    (h : CarriedOut e s env root reference pr expected kind t settled es r)
    (hsettled : settled ≠ .ok .build) : ∀ x ∈ es, x.request.provides = false := by
  cases h with
  | shown => simp [Request.provides, Request.isPull, Request.isTag, Request.isBuild]
  | built => exact absurd rfl hsettled
  | refused hes => exact hes.provides_eq

end Stages

namespace Preparation

variable {p : Preparation}

theorem FirstPlan.exists_lookup {plan : Except Refusal Toolchain.Plan}
    (h : p.FirstPlan s user expected t plan) : ∃ ids remote,
      Engine.toldIds p.search = .ok ids ∧
      Lookup s (p.kind.repository user) t ids p.lookup remote := by
  obtain ⟨hsearch, hlookup⟩ := h
  exact ⟨_, _, hsearch, hlookup⟩

theorem FirstPlan.unique {a b : Except Refusal Toolchain.Plan}
    (ha : p.FirstPlan s user expected t a) (hb : p.FirstPlan s user expected t b) : a = b := by
  obtain ⟨hsearch, hlookup⟩ := ha
  obtain ⟨hsearch', hlookup'⟩ := hb
  cases hsearch.symm.trans hsearch'
  rw [hlookup.unique hlookup']

/-- The plan is to pull only if the lookup has found the commit and the recipe that are
expected. -/
theorem FirstPlan.labels_of_pull (h : p.FirstPlan s user expected t (.ok .pull)) :
    ∃ labels, ((Registry.ofEndpoints s.endpoints).labels (p.kind.repository user)
        s.cpuArch).Yields t p.lookup t (.ok labels) ∧
      labels.get? Toolchain.Provenance.keys.commit = some expected.commit ∧
      labels.get? Toolchain.Provenance.keys.recipeHash = some expected.recipeHash := by
  obtain ⟨kind, search, lookup, transfer, finish, plan⟩ := p
  generalize hfirst : (.ok .pull : Except Refusal Toolchain.Plan) = first at h
  obtain ⟨hsearch, hlookup⟩ := h
  obtain ⟨hlocal, labels, hremote, hagrees⟩ := Toolchain.plan_eq_pull hfirst.symm
  cases hlookup with
  | spared => cases hremote
  | @made _ published _ hes =>
    cases published with
    | error error => cases hremote
    | ok found =>
      cases hremote
      exact ⟨labels, hes, Toolchain.Provenance.agreesWith_iff.1 hagrees⟩

variable {r : Except Failure Unit}

/-- A search that tells what it finds is followed by a lookup and by a plan for that. -/
theorem Conducted.exists_settled (h : p.Conducted e s env root user pr expected t r)
    (hids : Engine.toldIds p.search = .ok ids) :
    ∃ remote settled, Lookup s (p.kind.repository user) t ids p.lookup remote ∧
      Settled e s env (p.kind.repository user) pr t
        (Toolchain.plan expected (!ids.isEmpty) remote false) p.transfer settled ∧
      CarriedOut e s env root (Engine.tagged (p.kind.repository user) pr) pr expected p.kind t
        settled p.finish r := by
  cases h with
  | unsearched hsearch => cases hsearch.symm.trans hids
  | planned hfirst hsettled _ hfinish =>
    obtain ⟨hsearch, hlookup⟩ := hfirst
    cases hsearch.symm.trans hids
    exact ⟨_, _, hlookup, hsettled, hfinish⟩

/-- An image that is found is looked at, and that is all. -/
theorem Conducted.exchanges_of_found {id : String} {ids : List String}
    (h : p.Conducted e s env root user pr expected t r)
    (hfound : Engine.toldIds p.search = .ok (id :: ids)) :
    ∃ shown, p.exchanges e user pr expected =
      [⟨.engine e (.listImages (query user pr expected p.kind)), p.search⟩,
        ⟨.engine e (.inspect (Engine.tagged (p.kind.repository user) pr)), shown⟩] := by
  obtain ⟨remote, settled, hlookup, hsettled, hfinish⟩ := h.exists_settled hfound
  obtain ⟨htransfer, rfl⟩ := hsettled.of_ne_pull nofun
  obtain ⟨shown, hshown⟩ := hfinish.exists_shown nofun
  have hspared : p.lookup = [] := by
    generalize p.lookup = lookup at hlookup
    cases hlookup
    rfl
  exact ⟨shown, by rw [exchanges, hspared, htransfer, hshown]; rfl⟩

/-- An image that is found is used: nothing is looked up, pulled, named or built. -/
theorem Conducted.of_found {id : String} {ids : List String}
    (h : p.Conducted e s env root user pr expected t r)
    (hfound : Engine.toldIds p.search = .ok (id :: ids)) :
    ∀ x ∈ p.exchanges e user pr expected, ¬ x.request.IsWeb ∧ x.request.provides = false := by
  obtain ⟨shown, hes⟩ := h.exchanges_of_found hfound
  rw [hes]
  intro x hx
  simp only [List.mem_cons, List.not_mem_nil, or_false] at hx
  rcases hx with rfl | rfl
  · exact ⟨not_false, rfl⟩
  · exact ⟨not_false, rfl⟩

/-- At most one pull is sent. -/
theorem Conducted.countP_isPull_le (h : p.Conducted e s env root user pr expected t r) :
    (p.exchanges e user pr expected).countP (·.request.isPull) ≤ 1 := by
  rw [exchanges, List.countP_cons_of_neg Bool.false_ne_true, List.countP_append,
    List.countP_append]
  cases h with
  | unsearched _ hlookup htransfer hfinish =>
    rw [hlookup, htransfer, hfinish]
    exact Nat.zero_le 1
  | planned hfirst hsettled _ hfinish =>
    obtain ⟨-, hlookup⟩ := hfirst
    have hlookupZero : p.lookup.countP (·.request.isPull) = 0 :=
      Request.countP_eq_zero fun x hx => Request.isPull_eq_false (hlookup.provides_eq x hx)
    have hfinishZero : p.finish.countP (·.request.isPull) = 0 :=
      Request.countP_eq_zero hfinish.isPull_eq
    have htransfer := hsettled.countP_isPull_le
    omega

/-- A pull is sent only if it was the first plan. -/
theorem Conducted.firstPlan_of_isPull {x : Exchange}
    (h : p.Conducted e s env root user pr expected t r)
    (hx : x ∈ p.exchanges e user pr expected) (hpull : x.request.isPull = true) :
    p.FirstPlan s user expected t (.ok .pull) := by
  cases h with
  | unsearched _ hlookup htransfer hfinish =>
    rw [exchanges, hlookup, htransfer, hfinish] at hx
    obtain rfl := List.mem_singleton.1 hx
    cases hpull
  | @planned first _ _ hfirst hsettled _ hfinish =>
    by_cases hplan : first = .ok .pull
    · exact hplan ▸ hfirst
    · exfalso
      obtain ⟨htransfer, -⟩ := hsettled.of_ne_pull hplan
      obtain ⟨-, hlookup⟩ := hfirst
      rw [exchanges, htransfer, List.nil_append] at hx
      rcases List.mem_cons.1 hx with rfl | hx
      · cases hpull
      rcases List.mem_append.1 hx with hx | hx
      · rw [Request.isPull_eq_false (hlookup.provides_eq x hx)] at hpull
        cases hpull
      · rw [hfinish.isPull_eq x hx] at hpull
        cases hpull

/-- The plan is settled to build exactly if it was the first, or the first was to pull and that
failed. -/
theorem Conducted.settled_build_iff (h : p.Conducted e s env root user pr expected t r) :
    p.settled = some (.ok .build) ↔
      p.FirstPlan s user expected t (.ok .build) ∨
        p.FirstPlan s user expected t (.ok .pull) ∧ ∃ error,
          PullAndTag e s env (p.kind.repository user) pr t p.transfer (.error error) := by
  cases h with
  | unsearched hsearch _ _ _ hplan =>
    have hnone (plan : Except Refusal Toolchain.Plan) : ¬ p.FirstPlan s user expected t plan := by
      intro hfirst
      obtain ⟨_, _, hsearch', -⟩ := hfirst.exists_lookup
      cases hsearch.symm.trans hsearch'
    rw [hplan]
    constructor
    · exact nofun
    · rintro (hfirst | ⟨hfirst, -⟩)
      · exact absurd hfirst (hnone _)
      · exact absurd hfirst (hnone _)
  | @planned first settled _ hfirst hsettled hplan _ =>
    rw [hplan, Option.some_inj, hsettled.build_iff]
    constructor
    · rintro (rfl | ⟨rfl, hfailed⟩)
      · exact .inl hfirst
      · exact .inr ⟨hfirst, hfailed⟩
    · rintro (hbuild | ⟨hpull, hfailed⟩)
      · exact .inl (hfirst.unique hbuild)
      · exact .inr ⟨hfirst.unique hpull, hfailed⟩

/-- A plan settled to build goes through the build step. -/
theorem Conducted.exists_buildStep (h : p.Conducted e s env root user pr expected t r)
    (hbuild : p.settled = some (.ok .build)) :
    ∃ args r₀, expected.buildArgs p.kind pr = .ok args ∧
      BuildStep e env root p.kind (Engine.tagged (p.kind.repository user) pr) args t p.finish
        r₀ ∧
      r = r₀.map fun _ => () := by
  cases h with
  | unsearched _ _ _ _ hplan => cases hplan.symm.trans hbuild
  | planned _ _ hplan hfinish =>
    cases hplan.symm.trans hbuild
    exact hfinish.exists_buildStep

/-- No other sends a request to build. -/
theorem Conducted.isBuild_eq (h : p.Conducted e s env root user pr expected t r)
    (hbuild : p.settled ≠ some (.ok .build)) :
    ∀ x ∈ p.exchanges e user pr expected, x.request.isBuild = false := by
  intro x hx
  rcases List.mem_cons.1 hx with rfl | hx
  · rfl
  cases h with
  | unsearched _ hlookup htransfer hfinish =>
    rw [hlookup, htransfer, hfinish] at hx
    exact absurd hx List.not_mem_nil
  | planned hfirst hsettled hplan hfinish =>
    obtain ⟨-, hlookup⟩ := hfirst
    rw [hplan] at hbuild
    rcases List.mem_append.1 hx with hx | hx
    · exact Request.isBuild_eq_false (hlookup.provides_eq x hx)
    rcases List.mem_append.1 hx with hx | hx
    · exact hsettled.isBuild_eq x hx
    · exact Request.isBuild_eq_false
        (hfinish.provides_eq (fun hok => hbuild (congrArg some hok)) x hx)

/-- At most one request to build is sent. -/
theorem Conducted.countP_isBuild_le (h : p.Conducted e s env root user pr expected t r) :
    (p.exchanges e user pr expected).countP (·.request.isBuild) ≤ 1 := by
  rw [exchanges, List.countP_cons_of_neg Bool.false_ne_true, List.countP_append,
    List.countP_append]
  cases h with
  | unsearched _ hlookup htransfer hfinish =>
    rw [hlookup, htransfer, hfinish]
    exact Nat.zero_le 1
  | planned hfirst hsettled _ hfinish =>
    obtain ⟨-, hlookup⟩ := hfirst
    have hlookupZero : p.lookup.countP (·.request.isBuild) = 0 :=
      Request.countP_eq_zero fun x hx => Request.isBuild_eq_false (hlookup.provides_eq x hx)
    have htransferZero : p.transfer.countP (·.request.isBuild) = 0 :=
      Request.countP_eq_zero hsettled.isBuild_eq
    have hfinishOne := hfinish.countP_isBuild_le
    omega

/-- A refusal is reported and nothing else is sent after the lookup. -/
theorem Conducted.of_refused (h : p.Conducted e s env root user pr expected t r)
    (hrefused : p.FirstPlan s user expected t (.error .sourceOutOfDate)) :
    r = .error (.refusal .sourceOutOfDate) ∧ Report s p.finish ∧
      ∀ x ∈ p.exchanges e user pr expected, x.request.provides = false := by
  cases h with
  | unsearched hsearch =>
    obtain ⟨_, _, hsearch', -⟩ := hrefused.exists_lookup
    cases hsearch.symm.trans hsearch'
  | planned hfirst hsettled _ hfinish =>
    cases hfirst.unique hrefused
    obtain ⟨htransfer, rfl⟩ := hsettled.of_ne_pull nofun
    obtain ⟨hr, hreport⟩ := hfinish.of_refused
    obtain ⟨_, _, -, hlookup⟩ := hrefused.exists_lookup
    refine ⟨hr, hreport, fun x hx => ?_⟩
    rw [exchanges, htransfer, List.nil_append] at hx
    rcases List.mem_cons.1 hx with rfl | hx
    · rfl
    rcases List.mem_append.1 hx with hx | hx
    · exact hlookup.provides_eq x hx
    · exact hreport.provides_eq x hx

/-- Only a first plan that refuses ends as out of date. -/
theorem Conducted.firstPlan_of_refusal
    (h : p.Conducted e s env root user pr expected t (.error (.refusal .sourceOutOfDate))) :
    p.FirstPlan s user expected t (.error .sourceOutOfDate) := by
  generalize hr : (.error (.refusal .sourceOutOfDate) : Except Failure Unit) = r at h
  cases h with
  | unsearched => cases hr
  | @planned first settled _ hfirst hsettled _ hfinish =>
    obtain rfl := hfinish.settled_of_refusal hr.symm
    exact hsettled.eq_of_error ▸ hfirst

end Preparation

/-! ## The run -/

/-- The source tree gives the commit and the recipe, the source host the date of the commit. -/
theorem expected_of_yields {r : Except Failure Toolchain.Provenance}
    (h : (expectedProvenance s env root).Yields t es t' r) :
    t' = t ∧ (∀ x ∈ es, x.request.IsWeb) ∧ ∀ expected, r = .ok expected →
      Build.toolchainCommit t env.here root = .ok expected.commit ∧
      Build.fileDigest t env.here (Files.joinPath root ImageKind.static.dockerfile) =
        .ok expected.recipeHash := by
  unfold expectedProvenance onImages at h
  rw [yields_files_bind] at h
  cases hcommit : Build.toolchainCommit t env.here root with
  | error error =>
    rw [hcommit] at h
    obtain ⟨rfl, rfl, rfl⟩ := yields_fail.1 h
    exact ⟨rfl, fun x hx => absurd hx List.not_mem_nil, nofun⟩
  | ok commit =>
    rw [hcommit] at h
    rcases yields_bind.1 h with ⟨failure, h₁, -⟩ | ⟨_, es₁, t₁, es₂, h₁, h₂, rfl⟩
    · cases (yields_ofExcept.1 h₁).2.2
    obtain ⟨rfl, rfl, hok⟩ := yields_ofExcept.1 h₁
    cases hok
    obtain ⟨date, es₃, t₂, es₄, h₃, h₄, rfl⟩ := yields_attempt_bind.1 h₂
    obtain ⟨rfl, hdate⟩ := SourceHost.begun_of_yields_commitDate h₃
    dsimp only at h₄
    cases hrecipe : Build.fileDigest t₂ env.here
        (Files.joinPath root ImageKind.static.dockerfile) with
    | error error =>
      rw [hrecipe] at h₄
      obtain ⟨rfl, rfl, rfl⟩ := yields_fail.1 h₄
      rw [List.nil_append, List.append_nil]
      exact ⟨rfl, hdate.forall_isWeb, nofun⟩
    | ok recipe =>
      rw [hrecipe] at h₄
      obtain ⟨rfl, rfl, rfl⟩ := yields_pure.1 h₄
      rw [List.nil_append, List.append_nil]
      refine ⟨rfl, hdate.forall_isWeb, fun expected hexpected => ?_⟩
      cases hexpected
      exact ⟨rfl, rfl⟩

/-- What the log of a run says about its preparations. -/
structure PreparationLog (e : EngineEndpoint) (s : Settings) (env : Environment)
    (root user pr : String) (expected : Toolchain.Provenance) (t : Tree)
    (result : Except Failure Unit) (ps : List Preparation) : Prop where
  /-- There is one for each toolchain image in order, as far as the run gets. -/
  ordered : ps.map Preparation.kind <+: ImageKind.toolchain
  /-- Each goes one of the ways there are, and the last one decides how the run ends. -/
  conducted : ∀ earlier p later, ps = earlier ++ p :: later → ∃ r,
    p.Conducted e s env root user pr expected t r ∧ (later ≠ [] → r = .ok ()) ∧
      (later = [] → result = r)
  /-- An image that the search finds is used: no registry is asked, and nothing is pulled, named
  or built. -/
  found : ∀ p ∈ ps, ∀ id ids, Engine.toldIds p.search = .ok (id :: ids) →
    ∀ x ∈ p.exchanges e user pr expected, ¬ x.request.IsWeb ∧ x.request.provides = false
  /-- There is at most one pull, -/
  pulledOnce : ∀ p ∈ ps, (p.exchanges e user pr expected).countP (·.request.isPull) ≤ 1
  /-- and only if the registry's labels carry the commit and the recipe that are expected. -/
  pulled : ∀ p ∈ ps, ∀ x ∈ p.exchanges e user pr expected, x.request.isPull = true →
    ∃ labels, ((Registry.ofEndpoints s.endpoints).labels (p.kind.repository user)
        s.cpuArch).Yields t p.lookup t (.ok labels) ∧
      labels.get? Toolchain.Provenance.keys.commit = some expected.commit ∧
      labels.get? Toolchain.Provenance.keys.recipeHash = some expected.recipeHash
  /-- A build is what is settled on exactly if it was the first plan, or that was to pull and the
  pull or the naming failed. -/
  settled : ∀ p ∈ ps, p.settled = some (.ok .build) ↔
    p.FirstPlan s user expected t (.ok .build) ∨
      p.FirstPlan s user expected t (.ok .pull) ∧ ∃ error,
        PullAndTag e s env (p.kind.repository user) pr t p.transfer (.error error)
  /-- Then the build step is gone through, -/
  built : ∀ p ∈ ps, p.settled = some (.ok .build) → ∃ args r,
    expected.buildArgs p.kind pr = .ok args ∧
    BuildStep e env root p.kind (Engine.tagged (p.kind.repository user) pr) args t p.finish r
  /-- with at most one request to build, -/
  builtOnce : ∀ p ∈ ps, (p.exchanges e user pr expected).countP (·.request.isBuild) ≤ 1
  /-- and otherwise there is none. -/
  unbuilt : ∀ p ∈ ps, p.settled ≠ some (.ok .build) →
    ∀ x ∈ p.exchanges e user pr expected, x.request.isBuild = false
  /-- A pull request that is out of date ends the run, with at most a report. -/
  refused : ∀ earlier p later, ps = earlier ++ p :: later →
    p.FirstPlan s user expected t (.error .sourceOutOfDate) →
      later = [] ∧ result = .error (.refusal .sourceOutOfDate) ∧ Report s p.finish ∧
      ∀ x ∈ p.exchanges e user pr expected, x.request.provides = false
  /-- No other run ends so. -/
  refusal : result = .error (.refusal .sourceOutOfDate) → ∃ earlier p,
    ps = earlier ++ [p] ∧ p.FirstPlan s user expected t (.error .sourceOutOfDate)

theorem preparationLog_of_yields {r : Except Failure Unit}
    (h : (makeAllReady e s env root user pr expected ImageKind.toolchain).Yields t es t' r) :
    t' = t ∧ ∃ ps : List Preparation,
      es = ps.flatMap (Preparation.exchanges e user pr expected) ∧
      PreparationLog e s env root user pr expected t r ps := by
  have hloop : t' = t ∧ ∃ ps : List Preparation,
      es = ps.flatMap (Preparation.exchanges e user pr expected) ∧
      Rounds Preparation.kind (Preparation.Conducted e s env root user pr expected t)
        ImageKind.toolchain ps r :=
    loop_of_yields rfl (fun _ _ => rfl)
      (fun _ hkind _ _ _ => conducted_of_yields_makeReady hkind) h
  obtain ⟨rfl, ps, rfl, hps⟩ := hloop
  refine ⟨rfl, ps, rfl, hps.keys_prefix, fun _ _ _ => hps.conducted_of_eq, ?_, ?_, ?_, ?_, ?_, ?_,
    ?_, ?_, ?_⟩
  · intro p hp id ids hfound
    obtain ⟨_, hp⟩ := hps.exists_conducted hp
    exact hp.of_found hfound
  · intro p hp
    obtain ⟨_, hp⟩ := hps.exists_conducted hp
    exact hp.countP_isPull_le
  · intro p hp x hx hpull
    obtain ⟨_, hp⟩ := hps.exists_conducted hp
    exact (hp.firstPlan_of_isPull hx hpull).labels_of_pull
  · intro p hp
    obtain ⟨_, hp⟩ := hps.exists_conducted hp
    exact hp.settled_build_iff
  · intro p hp hbuild
    obtain ⟨_, hp⟩ := hps.exists_conducted hp
    obtain ⟨args, r₀, hargs, hstep, -⟩ := hp.exists_buildStep hbuild
    exact ⟨args, r₀, hargs, hstep⟩
  · intro p hp
    obtain ⟨_, hp⟩ := hps.exists_conducted hp
    exact hp.countP_isBuild_le
  · intro p hp hbuild
    obtain ⟨_, hp⟩ := hps.exists_conducted hp
    exact hp.isBuild_eq hbuild
  · intro earlier p later hsplit hrefused
    obtain ⟨r₁, hp, hnext, hlast⟩ := hps.conducted_of_eq hsplit
    obtain ⟨hr₁, hreport, hsent⟩ := hp.of_refused hrefused
    cases later with
    | nil => exact ⟨rfl, (hlast rfl).trans hr₁, hreport, hsent⟩
    | cons q later => cases (hnext (List.cons_ne_nil q later)).symm.trans hr₁
  · rintro rfl
    obtain ⟨earlier, p, rfl, hp⟩ := hps.exists_last
    exact ⟨earlier, p, rfl, hp.firstPlan_of_refusal⟩

/-- **Toolchain images are prepared as planned.**  Whatever the server, a run either fails before
it prepares an image, having asked for the date of the commit at most, or it makes a preparation
log for the provenance that the source tree asks for. -/
theorem llvm_prepares (s : Settings) (env : Environment) (root : String) (server : Server)
    (w : World) :
    ∃ es : List Exchange,
      ((llvm s env root).run server w).2.requests = w.requests ++ es.map (·.request) ∧
      (∀ before x after, es = before ++ x :: after →
        x.answer = server (w.requests ++ before.map (·.request) ++ [x.request])) ∧
      (((∃ failure, ((llvm s env root).run server w).1 = .error failure) ∧
          (es = [] ∨ ∃ r, (expectedProvenance s env root).Yields w.tree es w.tree r)) ∨
        ∃ user pr e expected asked ps,
          s.requireDockerhubUser = .ok user ∧ s.requirePrNumber = .ok pr ∧
          (EngineAddress.read s.dockerSocket).connect w.tree env = .ok e ∧
          Build.toolchainCommit w.tree env.here root = .ok expected.commit ∧
          Build.fileDigest w.tree env.here
            (Files.joinPath root ImageKind.static.dockerfile) = .ok expected.recipeHash ∧
          (expectedProvenance s env root).Yields w.tree asked w.tree (.ok expected) ∧
          es = asked ++ ps.flatMap (Preparation.exchanges e user pr expected) ∧
          PreparationLog e s env root user pr expected w.tree
            ((llvm s env root).run server w).1 ps) := by
  refine ⟨(llvm s env root).exchanges server w, requests_run server w _,
    fun _ _ _ h => answer_of_exchanges_eq h, ?_⟩
  have h := yields_run server w (llvm s env root)
  generalize ((llvm s env root).run server w).1 = result at h
  generalize (llvm s env root).exchanges server w = es at h
  unfold llvm at h
  rcases setting_of_yields h with ⟨failure, rfl, rfl, -⟩ | ⟨user, huser, h₁⟩
  · exact .inl ⟨⟨failure, rfl⟩, .inl rfl⟩
  rcases setting_of_yields h₁ with ⟨failure, rfl, rfl, -⟩ | ⟨pr, hpr, h₂⟩
  · exact .inl ⟨⟨failure, rfl⟩, .inl rfl⟩
  rcases yields_bind.1 h₂ with ⟨failure, hasked, rfl⟩ | ⟨expected, asked, t₁, rest, hasked, h₃, rfl⟩
  · obtain ⟨ht, -, -⟩ := expected_of_yields hasked
    exact .inl ⟨⟨failure, rfl⟩, .inr ⟨_, ht ▸ hasked⟩⟩
  obtain ⟨rfl, -, hexpected⟩ := expected_of_yields hasked
  obtain ⟨hcommit, hrecipe⟩ := hexpected expected rfl
  rw [yields_writeLine_bind, yields_writeLine_bind, yields_writeLine_bind,
    yields_writeLine_bind] at h₃
  rcases connect_of_yields h₃ with ⟨failure, rfl, rfl, -⟩ | ⟨e, he, h₄⟩
  · rw [List.append_nil]
    exact .inl ⟨⟨failure, rfl⟩, .inr ⟨_, hasked⟩⟩
  obtain ⟨-, ps, rfl, hlog⟩ := preparationLog_of_yields h₄
  exact .inr ⟨user, pr, e, expected, asked, ps, huser, hpr, he, hcommit, hrecipe, hasked, rfl,
    hlog⟩

end Command

end ImagePipeline
