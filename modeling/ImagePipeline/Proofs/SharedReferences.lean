import ImagePipeline.Command.Product
import ImagePipeline.Proofs.Publication
import ImagePipeline.Proofs.ReportedErrors
import ImagePipeline.Proofs.ToolchainPreparation

/-!
# References from one stage to the next

Three commands deal with the images of a pull request, one after the other and each in a run of its
own: one makes the toolchain images ready, one builds the product images on them, and one puts all
of them before the gate.  Nothing is handed over but the references, and each command makes them up
by itself.

* `Supplied`: the engine has an image under a reference, by what it has answered.
* `supplied_of_yields`: the toolchain image that is made ready is supplied, whichever way it was.
* `orders_prefix`, `inspections_prefix`: what a run builds and what a run inspects, in order.
* `stages_share_references`: so what is built stands on what was made ready, and what is inspected
  is what was built and what it stands on.
-/

namespace ImagePipeline

open Files (Tree)
open Program

/-! ## The loops of the stages -/

section

variable {ε ρ κ γ : Type} {key : ρ → κ} {parts : ρ → List Exchange}
  {conducted : ρ → Except ε Unit → Prop} {keys : List κ} {rounds : List ρ} {r : Except ε Unit}
  {select : Exchange → Option γ} {entry : κ → γ}

/-- If every round shows its key at most once, and exactly once when it goes well, then a loop shows
its keys in order, as far as it gets. -/
theorem Rounds.filterMap_prefix (h : Rounds key conducted keys rounds r)
    (hround : ∀ round r, conducted round r →
      (parts round).filterMap select <+: [entry (key round)])
    (hok : ∀ round, conducted round (.ok ()) →
      (parts round).filterMap select = [entry (key round)]) :
    (rounds.flatMap parts).filterMap select <+: keys.map entry := by
  induction h with
  | finished => exact List.prefix_rfl
  | @failed round keys e hfailed =>
    rw [List.flatMap_cons, List.flatMap_nil, List.append_nil, List.map_cons]
    exact (hround round _ hfailed).trans (List.prefix_append [_] _)
  | @next round keys rounds r hfirst _ ih =>
    rw [List.flatMap_cons, List.filterMap_append, hok round hfirst, List.map_cons]
    exact List.cons_prefix_cons.2 ⟨rfl, ih⟩

end

namespace Engine

variable {e : EngineEndpoint} {t t' : Tree} {es : List Exchange}

/-- The engine says that a transfer or a build has ended well: with success, and with a stream that
reports no error to its end. -/
def EndsWell (answer : Answer) : Prop :=
  ∃ reply, answer = .reply reply ∧ isSuccess reply.status = true ∧
    (EngineMessage.ofReply reply).2 = none ∧
    ∀ m ∈ (EngineMessage.ofReply reply).1, m.errorDetail = none

theorem exists_reply_of_accept {ε : Type} {f : EngineError → ε} {g : Reply → Except ε Unit}
    {answer : Answer} (h : ((accept answer).mapError f).bind g = .ok ()) :
    ∃ reply, answer = .reply reply ∧ isSuccess reply.status = true := by
  cases haccept : accept answer with
  | error error =>
    rw [haccept] at h
    cases h
  | ok reply => exact ⟨reply, accept_eq_ok_iff.1 haccept⟩

theorem endsWell_of_buildOutcome {answer : Answer} (h : buildOutcome answer = .ok ()) :
    EndsWell answer := by
  obtain ⟨reply, rfl, hsuccess⟩ := exists_reply_of_accept h
  exact ⟨reply, rfl, hsuccess, (isOk_buildOutcome_iff hsuccess).1 (by rw [h]; rfl)⟩

theorem endsWell_of_pullOutcome {image : String} {answer : Answer}
    (h : pullOutcome image answer = .ok ()) : EndsWell answer := by
  obtain ⟨reply, rfl, hsuccess⟩ := exists_reply_of_accept h
  exact ⟨reply, rfl, hsuccess, (isOk_pullOutcome_iff hsuccess).1 (by rw [h]; rfl)⟩

/-- The end of a build in a transcript is that of its answer. -/
theorem outcome_of_yields_build {dockerfile tag : String} {args : BuildArgs}
    {context : Build.Archive} {r : Except ImageError Unit}
    (h : (build e dockerfile tag args context).Yields t es t' r) :
    t' = t ∧ ∃ answer, es = [⟨.engine e (.build dockerfile tag args context), answer⟩] ∧
      r = buildOutcome answer := by
  obtain ⟨rfl, answer, rfl⟩ := build_of_yields h
  refine ⟨rfl, answer, rfl, ?_⟩
  -- A run with an engine that gives this answer has the same transcript.
  have hrun := yields_run (fun _ => answer) ⟨[], "", t'⟩ (build e dockerfile tag args context)
  obtain ⟨-, answer', hes⟩ := build_of_yields hrun
  have hanswer : answer' = answer := answer_of_exchanges_eq (show _ = [] ++ _ :: [] from hes)
  rw [hes, hanswer, run_build] at hrun
  exact (h.unique hrun).2

end Engine

namespace Command

open Engine (EndsWell toldIds tagged)

variable {e : EngineEndpoint} {s : Settings} {env : Environment} {root user pr : String}
  {expected : Toolchain.Provenance} {t t' : Tree} {es : List Exchange} {kind : ImageKind}

/-! ## The toolchain images -/

/-- The engine has said that it has an image under a reference: it has found one, has given the
name to one that it had pulled before, or has built one. -/
inductive Supplied (reference : String) (es : List Exchange) : Prop where
  | found {e : EngineEndpoint} {query : ImageQuery} {answer : Answer} {id : String}
      {ids : List String} (hquery : query.reference = some reference)
      (hids : toldIds answer = .ok (id :: ids))
      (hes : ⟨.engine e (.listImages query), answer⟩ ∈ es)
  | named {e : EngineEndpoint} {before after : List Exchange} {repository arch tag : String}
      {sender : Option Credentials} {pulled naming : Answer}
      (hreference : tagged repository tag = reference)
      (hpull : ⟨.engine e (.pull repository arch sender), pulled⟩ ∈ before)
      (hpulled : EndsWell pulled)
      (hnaming : Engine.Succeeds naming)
      (hes : es = before ++
        ⟨.engine e (.tagImage (tagged repository arch) repository tag), naming⟩ :: after)
  | built {e : EngineEndpoint} {dockerfile : String} {args : BuildArgs} {context : Build.Archive}
      {answer : Answer} (hanswer : EndsWell answer)
      (hes : ⟨.engine e (.build dockerfile reference args context), answer⟩ ∈ es)

theorem Supplied.cons {reference : String} (h : Supplied reference es) (x : Exchange) :
    Supplied reference (x :: es) := by
  cases h with
  | found hquery hids hes => exact .found hquery hids (List.mem_cons_of_mem x hes)
  | named hreference hpull hpulled hnaming hes =>
    exact .named hreference (List.mem_cons_of_mem x hpull) hpulled hnaming (congrArg (x :: ·) hes)
  | built hanswer hes => exact .built hanswer (List.mem_cons_of_mem x hes)

theorem Supplied.append_left {reference : String} (h : Supplied reference es)
    (before : List Exchange) : Supplied reference (before ++ es) := by
  induction before with
  | nil => exact h
  | cons x before ih => exact ih.cons x

/-- A search, a pull and a build make the three ways to have an image. -/
theorem supplied_of_yields_buildImage {reference : String} {args : BuildArgs} {id : String}
    (h : (buildImage e env root kind reference args).Yields t es t' (.ok id)) :
    Supplied reference es := by
  unfold buildImage at h
  rw [yields_files_bind] at h
  rcases yields_bind.1 h with ⟨failure, -, hr⟩ | ⟨context, es₁, t₁, es₂, h₁, h₂, rfl⟩
  · cases hr
  obtain ⟨r₀, h₀, -⟩ := yields_mapError.1 h₁
  obtain ⟨rfl, rfl, -⟩ := yields_ofExcept.1 h₀
  rcases yields_bind.1 h₂ with ⟨failure, -, hr⟩ | ⟨⟨⟩, es₃, t₃, es₄, h₃, -, rfl⟩
  · cases hr
  obtain ⟨r₁, h₄, hr₁⟩ := yields_mapError.1 h₃
  obtain ⟨rfl, answer, rfl, rfl⟩ := Engine.outcome_of_yields_build h₄
  have hanswer : Engine.buildOutcome answer = .ok () := by
    cases houtcome : Engine.buildOutcome answer with
    | ok => rfl
    | error error =>
      rw [houtcome] at hr₁
      cases hr₁
  exact .built (Engine.endsWell_of_buildOutcome hanswer)
    (List.mem_append_right [] (List.mem_append_left es₄ List.mem_cons_self))

theorem Supplied.append_right {reference : String} (h : Supplied reference es)
    (after : List Exchange) : Supplied reference (es ++ after) := by
  cases h with
  | found hquery hids hes => exact .found hquery hids (List.mem_append_left after hes)
  | @named e before rest _ _ _ _ _ naming hreference hpull hpulled hnaming hes =>
    refine .named hreference hpull hpulled hnaming (?_ : _ = before ++ _ :: (rest ++ after))
    rw [hes, List.append_assoc, List.cons_append]
  | built hanswer hes => exact .built hanswer (List.mem_append_left after hes)

theorem PullAndTag.supplied {repository : String}
    (h : PullAndTag e s env repository pr t es (.ok ())) : Supplied (tagged repository pr) es := by
  generalize hr : (.ok () : Except ImageError Unit) = r at h
  cases h with
  | refused => cases hr
  | unpulled => cases hr
  | @pulled _ answer naming _ hpull =>
    have hnaming : Engine.Succeeds naming := Engine.tagOutcome_eq_ok_iff.1 hr.symm
    exact .named rfl (List.mem_singleton.2 rfl) (Engine.endsWell_of_pullOutcome hpull) hnaming rfl

/-- An image is used as it is only if the search has found it. -/
theorem plan_eq_reuse {localMatch pullFailed : Bool} {remote : Option Labels}
    (h : Toolchain.plan expected localMatch remote pullFailed = .ok .reuse) :
    localMatch = true := by
  cases localMatch with
  | true => rfl
  | false =>
    unfold Toolchain.plan at h
    rw [if_neg Bool.false_ne_true] at h
    cases remote with
    | none => cases h
    | some labels =>
      dsimp only at h
      split at h
      · cases h
      split at h
      · cases h
      split at h
      · cases h
      · cases h

section

variable {repository : String} {first : Except Refusal Toolchain.Plan}

theorem Settled.eq_of_reuse (h : Settled e s env repository pr t first es (.ok .reuse)) :
    first = .ok .reuse := by
  cases h with
  | kept => rfl

/-- A pull that has been settled on went well, and so did the naming. -/
theorem Settled.supplied (h : Settled e s env repository pr t first es (.ok .pull)) :
    Supplied (tagged repository pr) es := by
  cases h with
  | kept hkept => exact absurd rfl hkept
  | pulled _ hes => exact hes.supplied

end

/-- The toolchain image that is made ready is supplied. -/
theorem supplied_of_yields
    (h : (makeReady e s env root user pr expected kind).Yields t es t' (.ok ())) :
    Supplied (kind.reference user pr) es := by
  unfold makeReady onImages at h
  dsimp only at h
  rw [yields_writeLine_bind, yields_writeLine_bind, Engine.find_eq, ask_mapError] at h
  obtain ⟨search, rest, rfl, ⟨failure, -, -, -, hr⟩ | ⟨ids, hids, h₁⟩⟩ := yields_ask_bind.1 h
  · cases hr
  replace hids : toldIds search = .ok ids := by
    cases htold : toldIds search with
    | error error =>
      rw [htold] at hids
      cases hids
    | ok ids' =>
      rw [htold] at hids
      cases hids
      rfl
  rcases yields_bind.1 h₁ with ⟨failure, -, hr⟩ | ⟨remote, lookup, t₁, es₂, -, h₂, rfl⟩
  · cases hr
  rcases yields_bind.1 h₂ with ⟨failure, -, hr⟩ | ⟨plan, transfer, t₂, finish, h₃, h₄, rfl⟩
  · cases hr
  obtain ⟨rfl, settled, hplan, hsettled⟩ := settled_of_yields h₃
  cases hplan
  match plan with
  | .ok .reuse =>
    obtain ⟨id, ids, rfl⟩ : ∃ id ids', ids = id :: ids' := by
      have hfound := plan_eq_reuse hsettled.eq_of_reuse
      cases ids with
      | nil => cases hfound
      | cons id ids => exact ⟨id, ids, rfl⟩
    exact .found rfl hids List.mem_cons_self
  | .ok .pull => exact .cons (.append_left (hsettled.supplied.append_right finish) lookup) _
  | .ok .build =>
    have hbuilt : Supplied (kind.reference user pr) finish := by
      unfold carryOut at h₄
      rcases yields_bind.1 h₄ with ⟨failure, -, hr⟩ | ⟨args, es₃, t₃, es₄, hargs, h₅, rfl⟩
      · cases hr
      rcases yields_bind.1 h₅ with ⟨failure, -, hr⟩ | ⟨id, es₅, t₄, es₆, h₆, -, rfl⟩
      · cases hr
      exact .append_left ((supplied_of_yields_buildImage h₆).append_right es₆) es₃
    exact .cons (.append_left (.append_left hbuilt transfer) lookup) _
  | .error refusal =>
    unfold carryOut at h₄
    dsimp only at h₄
    split at h₄
    · rcases yields_bind.1 h₄ with ⟨failure, -, hr⟩ | ⟨⟨⟩, es₃, t₃, es₄, -, h₅, rfl⟩
      · cases hr
      · cases (yields_fail.1 h₅).2.2
    · cases (yields_fail.1 h₄).2.2

/-- A preparation supplies its image if it goes well. -/
def Preparation.Supplies (e : EngineEndpoint) (user pr : String) (expected : Toolchain.Provenance)
    (round : Preparation) (r : Except Failure Unit) : Prop :=
  r = .ok () → Supplied (round.kind.reference user pr) (round.exchanges e user pr expected)

/-- A run that makes all toolchain images ready is made of preparations, one for each, and each
supplies its image. -/
theorem supplied_of_yields_llvm (huser : s.dockerhubUser = some user)
    (hpr : s.pr.number = some pr) (h : (llvm s env root).Yields t es t' (.ok ())) :
    ∃ e expected earlier, ∃ rounds : List Preparation,
      es = earlier ++ rounds.flatMap (Preparation.exchanges e user pr expected) ∧
      rounds.map Preparation.kind = ImageKind.toolchain ∧
      ∀ round ∈ rounds, Supplied (round.kind.reference user pr)
        (round.exchanges e user pr expected) := by
  unfold llvm at h
  rcases required_of_yields h with ⟨-, hr, -⟩ | ⟨user', huser', h₁⟩
  · cases hr
  cases huser.symm.trans huser'
  rcases required_of_yields h₁ with ⟨-, hr, -⟩ | ⟨pr', hpr', h₂⟩
  · cases hr
  cases hpr.symm.trans hpr'
  rcases yields_bind.1 h₂ with ⟨failure, -, hr⟩ | ⟨expected, earlier, t₁, rest, -, h₃, rfl⟩
  · cases hr
  rw [yields_writeLine_bind, yields_writeLine_bind, yields_writeLine_bind,
    yields_writeLine_bind] at h₃
  rcases connect_of_yields h₃ with ⟨failure, hr, -⟩ | ⟨e, -, h₄⟩
  · cases hr
  have hloop : t' = t₁ ∧ ∃ rounds : List Preparation,
      rest = rounds.flatMap (Preparation.exchanges e user pr expected) ∧
      Rounds Preparation.kind (Preparation.Supplies e user pr expected) ImageKind.toolchain
        rounds (.ok ()) := by
    refine loop_of_yields rfl (fun _ _ => rfl) ?_ h₄
    intro kind hkind es t' r h
    obtain ⟨rfl, round, rfl, rfl, -⟩ := conducted_of_yields_makeReady hkind h
    refine ⟨rfl, round, rfl, rfl, ?_⟩
    rintro rfl
    exact supplied_of_yields h
  obtain ⟨-, rounds, rfl, hrounds⟩ := hloop
  exact ⟨e, expected, earlier, rounds, rfl, hrounds.keys_eq,
    fun round hround => hrounds.conducted_ok hround rfl⟩

end Command

/-! ## What is ordered and what is inspected -/

/-- What a request to build asks for. -/
structure BuildOrder where
  /-- The recipe. -/
  dockerfile : String
  /-- The name of the image. -/
  name : String
  args : BuildArgs
deriving DecidableEq

/-- The image that an order names to build on. -/
def BuildOrder.base? (order : BuildOrder) : Option String := order.args.lookup "BASE_IMAGE"

/-- The order in a request. -/
def Request.order? : Request → Option BuildOrder
  | .engine _ (.build dockerfile name args _) => some ⟨dockerfile, name, args⟩
  | _ => none

/-- The reference that a request asks the engine about. -/
def Request.inspected? : Request → Option String
  | .engine _ (.inspect reference) => some reference
  | _ => none

/-- The images that are ordered, in order. -/
def orders (es : List Exchange) : List BuildOrder := es.filterMap (·.request.order?)

/-- The references that the engine is asked about, in order. -/
def inspections (es : List Exchange) : List String := es.filterMap (·.request.inspected?)

theorem Request.IsWeb.inspected?_eq {q : Request} (h : q.IsWeb) : q.inspected? = none := by
  cases q with
  | web request => rfl
  | engine endpoint call => exact h.elim

/-- The order for a product image on its base. -/
def productOrder (user pr : String) (kind base : ImageKind) : BuildOrder where
  dockerfile := kind.dockerfile
  name := kind.reference user pr
  args := [("BASE_IMAGE", base.reference user pr), ("ONNX_MLIR_PR_NUMBER", pr)]

@[simp] theorem base?_productOrder (user pr : String) (kind base : ImageKind) :
    (productOrder user pr kind base).base? = some (base.reference user pr) := rfl

namespace Command

variable {e : EngineEndpoint} {s : Settings} {env : Environment} {root user pr : String}
  {t t' : Tree} {es : List Exchange}

/-! ### The run that builds -/

/-- What is exchanged to build one product image. -/
structure ProductBuild where
  kind : ImageKind
  exchanges : List Exchange

/-- A build that goes well has ordered its image on its base, and any has ordered no other. -/
def ProductBuild.Conducted (user pr : String) (round : ProductBuild)
    (r : Except Failure Unit) : Prop :=
  ∃ base, round.kind.base = some base ∧
    orders round.exchanges <+: [productOrder user pr round.kind base] ∧
    (r = .ok () → orders round.exchanges = [productOrder user pr round.kind base])

theorem orders_of_buildStep {kind : ImageKind} {reference : String} {args : BuildArgs}
    {r : Except Failure String} (h : BuildStep e env root kind reference args t es r) :
    orders es <+: [⟨kind.dockerfile, reference, args⟩] ∧
      ∀ id, r = .ok id → orders es = [⟨kind.dockerfile, reference, args⟩] := by
  cases h with
  | noContext => exact ⟨List.nil_prefix, nofun⟩
  | failed => exact ⟨List.prefix_rfl, nofun⟩
  | built => exact ⟨List.prefix_rfl, fun _ _ => rfl⟩

theorem conducted_of_yields_buildProduct {kind : ImageKind} (hkind : kind ∈ ImageKind.product)
    {r : Except Failure Unit}
    (h : (buildProduct e env root user pr kind).Yields t es t' r) :
    t' = t ∧ ∃ round : ProductBuild, round.kind = kind ∧ es = round.exchanges ∧
      round.Conducted user pr r := by
  obtain ⟨base, hbase⟩ : ∃ base, kind.base = some base := by
    simp only [ImageKind.product, List.mem_cons, List.not_mem_nil, or_false] at hkind
    rcases hkind with rfl | rfl
    · exact ⟨_, rfl⟩
    · exact ⟨_, rfl⟩
  have hargs : productBuildArgs kind user pr = .ok (productOrder user pr kind base).args := by
    rw [productBuildArgs, hbase]
    rfl
  unfold buildProduct at h
  rw [hargs] at h
  rcases yields_ofExcept_bind.1 h with ⟨failure, hfailure, -⟩ | ⟨args, hok, h₁⟩
  · cases hfailure
  cases hok
  rw [yields_writeLine_bind, yields_writeLine_bind] at h₁
  rcases yields_bind.1 h₁ with ⟨failure, h₂, rfl⟩ | ⟨id, es₁, t₁, es₂, h₂, h₃, rfl⟩
  · obtain ⟨rfl, hstep⟩ := buildStep_of_yields h₂
    exact ⟨rfl, ⟨kind, es⟩, rfl, rfl, base, hbase, (orders_of_buildStep hstep).1, nofun⟩
  · obtain ⟨rfl, hstep⟩ := buildStep_of_yields h₂
    obtain ⟨rfl, rfl, rfl⟩ := yields_writeLine.1 h₃
    rw [List.append_nil]
    obtain ⟨hbegun, hordered⟩ := orders_of_buildStep hstep
    exact ⟨rfl, ⟨kind, es₁⟩, rfl, rfl, base, hbase, hbegun, fun _ => hordered id rfl⟩

/-- A run that builds orders the product images, each on its base, in order as far as it gets. -/
theorem orders_prefix {r : Except Failure Unit} (huser : s.dockerhubUser = some user)
    (hpr : s.pr.number = some pr) (h : (build s env root).Yields t es t' r) :
    orders es <+: [productOrder user pr .dev .static, productOrder user pr .usr .shared] := by
  unfold build at h
  rcases required_of_yields h with ⟨-, -, rfl, -⟩ | ⟨user', huser', h₁⟩
  · exact List.nil_prefix
  cases huser.symm.trans huser'
  rcases required_of_yields h₁ with ⟨-, -, rfl, -⟩ | ⟨pr', hpr', h₂⟩
  · exact List.nil_prefix
  cases hpr.symm.trans hpr'
  rcases connect_of_yields h₂ with ⟨failure, -, rfl, -⟩ | ⟨e, -, h₃⟩
  · exact List.nil_prefix
  rw [yields_writeLine_bind] at h₃
  have hloop : t' = t ∧ ∃ rounds : List ProductBuild,
      es = rounds.flatMap ProductBuild.exchanges ∧
      Rounds ProductBuild.kind (ProductBuild.Conducted user pr) ImageKind.product rounds r :=
    loop_of_yields rfl (fun _ _ => rfl)
      (fun _ hkind _ _ _ => conducted_of_yields_buildProduct hkind) h₃
  obtain ⟨-, rounds, rfl, hrounds⟩ := hloop
  have hentry : ∀ kind base : ImageKind, kind.base = some base →
      productOrder user pr kind base = productOrder user pr kind (kind.base.getD kind) := by
    intro kind base hbase
    rw [hbase]
    rfl
  have hbegun : orders (rounds.flatMap ProductBuild.exchanges) <+: ImageKind.product.map
      fun kind => productOrder user pr kind (kind.base.getD kind) := by
    refine hrounds.filterMap_prefix ?_ ?_
    · rintro round r ⟨base, hbase, hbegun, -⟩
      rw [← hentry _ _ hbase]
      exact hbegun
    · rintro round ⟨base, hbase, -, hordered⟩
      rw [← hentry _ _ hbase]
      exact hordered rfl
  exact hbegun

/-! ### The run that publishes -/

theorem inspections_eq_nil (h : ∀ x ∈ es, x.request.inspected? = none) : inspections es = [] :=
  List.filterMap_eq_nil_iff.2 h

/-- A publication asks the engine about nothing. -/
theorem inspections_of_publication {source : CredentialSource} {repository localTag arch : String}
    {r : Except ImageError String}
    (h : Engine.Publication e source env repository localTag arch t es r) :
    inspections es = [] := by
  cases h with
  | refused => rfl
  | unnamed => rfl
  | sent _ harch _ hpush =>
    obtain ⟨-, ⟨error, -, rfl, -⟩ | ⟨sender, answer, -, rfl, -⟩⟩ :=
      (Engine.yields_push harch).1 hpush
    · rfl
    · rfl

/-- A round asks the engine about its local image and about no other. -/
theorem Round.Conducted.inspections_eq {round : Round} {r : Except Failure Unit}
    (h : round.Conducted e s env user pr t r) :
    inspections (round.exchanges e s user pr) = [localImage s user pr round.kind] := by
  have hparts : inspections round.lookup = [] ∧ inspections round.inquiry = [] ∧
      inspections round.transfer = [] := by
    have hjudged : ∀ v, round.Judged s user pr t v →
        inspections round.lookup = [] ∧ inspections round.inquiry = [] := by
      intro v hv
      obtain ⟨-, -, hlookup, hinquiry⟩ := hv
      constructor
      · refine inspections_eq_nil fun x hx => ?_
        exact (hlookup.forall_request (Registry.only_isWeb_labels _ _ _) x hx).inspected?_eq
      · exact inspections_eq_nil fun x hx => (hinquiry.forall_isWeb x hx).inspected?_eq
    cases h with
    | stopped _ hlookup hinquiry htransfer =>
      rw [hlookup, hinquiry, htransfer]
      exact ⟨rfl, rfl, rfl⟩
    | withheld hv _ htransfer =>
      rw [htransfer]
      exact ⟨(hjudged _ hv).1, (hjudged _ hv).2, rfl⟩
    | passed hv _ htransfer =>
      exact ⟨(hjudged _ hv).1, (hjudged _ hv).2, inspections_of_publication htransfer⟩
  obtain ⟨hlookup, hinquiry, htransfer⟩ := hparts
  unfold inspections at hlookup hinquiry htransfer ⊢
  rw [Round.exchanges, Round.questions, List.filterMap_append, List.filterMap_cons,
    List.filterMap_append, hlookup, hinquiry, htransfer]
  rfl

/-- A run that publishes asks about the local images, in order as far as it gets. -/
theorem inspections_prefix {r : Except Failure Unit} (huser : s.dockerhubUser = some user)
    (hpr : s.pr.number = some pr) (h : (publish s env).Yields t es t' r) :
    inspections es <+: ImageKind.all.map (localImage s user pr) := by
  unfold publish at h
  rcases required_of_yields h with ⟨-, -, rfl, -⟩ | ⟨user', huser', h₁⟩
  · exact List.nil_prefix
  cases huser.symm.trans huser'
  rcases required_of_yields h₁ with ⟨-, -, rfl, -⟩ | ⟨pr', hpr', h₂⟩
  · exact List.nil_prefix
  cases hpr.symm.trans hpr'
  rcases connect_of_yields h₂ with ⟨failure, -, rfl, -⟩ | ⟨e, -, h₃⟩
  · exact List.nil_prefix
  rw [yields_writeLine_bind] at h₃
  obtain ⟨-, rounds, rfl, hrounds⟩ := rounds_of_yields h₃
  exact hrounds.filterMap_prefix (fun round r hround => hround.inspections_eq ▸ List.prefix_rfl)
    fun round hround => hround.inspections_eq

/-- The local images of a pull request have its number for their tag, unless the build was started
by a push. -/
theorem localImage_eq (htrigger : s.pr.trigger ≠ .push) (kind : ImageKind) :
    localImage s user pr kind = kind.reference user pr := by
  have htag : PullRequest.localTag s.pr.trigger pr = pr := by
    cases hcase : s.pr.trigger with
    | publish => rfl
    | push => exact absurd hcase htrigger
    | other text => rfl
  rw [localImage, htag]
  rfl

/-! ## The stages together -/

/-- The settings are for a user and a pull request. -/
def IsFor (user pr : String) (s : Settings) : Prop :=
  s.dockerhubUser = some user ∧ s.pr.number = some pr

/-- **References from one stage to the next.**  Three runs for the same user and pull request share
nothing else: settings, files and servers are those of each run.

If the first makes the toolchain images ready without failing then it is made of one preparation for
each; and whatever the second orders to be built, it orders a product image on a base that the
preparation of that base has supplied.  Unless the third is for a push, and if the third gets to all
images and the second ordered all of its own, then the third inspects the bases of these orders and
the images ordered, and nothing else. -/
theorem stages_share_references {user pr : String} {s₁ s₂ s₃ : Settings}
    (h₁ : IsFor user pr s₁) (h₂ : IsFor user pr s₂) (h₃ : IsFor user pr s₃)
    (env₁ env₂ env₃ : Environment) (root₁ root₂ : String) (server₁ server₂ server₃ : Server)
    (w₁ w₂ w₃ : World) :
    let prepared := (llvm s₁ env₁ root₁).exchanges server₁ w₁
    let built := (build s₂ env₂ root₂).exchanges server₂ w₂
    let published := (publish s₃ env₃).exchanges server₃ w₃
    (((llvm s₁ env₁ root₁).run server₁ w₁).1 = .ok () →
      ∃ e expected earlier, ∃ rounds : List Preparation,
        prepared = earlier ++ rounds.flatMap (Preparation.exchanges e user pr expected) ∧
        rounds.map Preparation.kind = ImageKind.toolchain ∧
        ∀ order ∈ orders built, ∃ kind ∈ ImageKind.product,
          order.dockerfile = kind.dockerfile ∧ order.name = kind.reference user pr ∧
          ∃ round ∈ rounds, kind.base = some round.kind ∧ ∃ reference,
            order.base? = some reference ∧
            Supplied reference (round.exchanges e user pr expected)) ∧
    (s₃.pr.trigger ≠ .push → (inspections published).length = ImageKind.all.length →
      (orders built).length = ImageKind.product.length →
      inspections published =
        (orders built).filterMap BuildOrder.base? ++ (orders built).map BuildOrder.name) := by
  intro prepared built published
  have hbuilt : orders built <+:
      [productOrder user pr .dev .static, productOrder user pr .usr .shared] :=
    orders_prefix h₂.1 h₂.2 (yields_run server₂ w₂ (build s₂ env₂ root₂))
  have hpublished : inspections published <+: ImageKind.all.map (localImage s₃ user pr) :=
    inspections_prefix h₃.1 h₃.2 (yields_run server₃ w₃ (publish s₃ env₃))
  refine ⟨fun hok => ?_, fun htrigger hall hordered => ?_⟩
  · have hrun := yields_run server₁ w₁ (llvm s₁ env₁ root₁)
    rw [hok] at hrun
    obtain ⟨e, expected, earlier, rounds, hes, hkinds, hsupplied⟩ :=
      supplied_of_yields_llvm h₁.1 h₁.2 hrun
    refine ⟨e, expected, earlier, rounds, hes, hkinds, ?_⟩
    have hbase : ∀ kind base : ImageKind, kind ∈ ImageKind.product → kind.base = some base →
        base ∈ ImageKind.toolchain → ∃ kind' ∈ ImageKind.product,
          (productOrder user pr kind base).dockerfile = kind'.dockerfile ∧
          (productOrder user pr kind base).name = kind'.reference user pr ∧
          ∃ round ∈ rounds, kind'.base = some round.kind ∧ ∃ reference,
            (productOrder user pr kind base).base? = some reference ∧
            Supplied reference (round.exchanges e user pr expected) := by
      intro kind base hkind hbase hmem
      rw [← hkinds] at hmem
      obtain ⟨round, hround, rfl⟩ := List.mem_map.1 hmem
      exact ⟨kind, hkind, rfl, rfl, round, hround, hbase, _, rfl, hsupplied round hround⟩
    intro order horder
    have hmem := hbuilt.subset horder
    simp only [List.mem_cons, List.not_mem_nil, or_false] at hmem
    rcases hmem with rfl | rfl
    · exact hbase .dev .static (by decide) rfl (by decide)
    · exact hbase .usr .shared (by decide) rfl (by decide)
  · rw [hpublished.eq_of_length (by simpa using hall), hbuilt.eq_of_length hordered]
    simp only [ImageKind.all, List.map_cons, List.map_nil, localImage_eq htrigger]
    rfl

/-! The stages for the pull request 7, with an engine that has all images and lets everything be
done. -/

namespace Stages

def settings : Settings where
  dockerSocket := some "tcp://localhost:2375"
  cpuArch := Settings.hostArch
  dockerhubUser := some "user"
  dockerhubToken := none
  githubToken := none
  build := ⟨none, none, none, none, .unknown⟩
  pr := ⟨some "7", some .opened, false, .other "", none⟩
  endpoints := {}

def environment : Environment := ⟨"/", fun _ => none⟩

/-- The tree with a file in a directory of the root. -/
def withFile (t : Tree) (directory name text : String) : Tree :=
  (t.makeDirectories [directory]).put [directory] name (.file (Text.encode text))

/-- The sources, with recipes that are empty. -/
def world : World where
  requests := []
  output := ""
  tree := ["Dockerfile.llvm-project", "Dockerfile.onnx-mlir-dev", "Dockerfile.onnx-mlir"].foldl
    (fun t name => withFile t "docker" name "")
    (withFile .empty "utils" "clone-mlir.sh" "git checkout abc")

def engine : Server := fun requests =>
  match requests.getLast? with
  | some (.engine _ (.listImages _)) => .reply ⟨200, none, .text "[\x7b\"Id\":\"a\"\x7d]"⟩
  | some (.engine _ (.inspect _)) => .reply ⟨200, none, .text "\x7b\x7d"⟩
  | some (.engine _ _) => .reply ⟨200, none, .stream [] true⟩
  | _ => .unreachable

/-- An image with the labels of a family. -/
def labelled (family : String) : String :=
  "\x7b\"Config\":\x7b\"Labels\":\x7b\"" ++ family ++ "_sha1\":\"a\",\""
    ++ family ++ "_sha1_date\":\"2024-01-01T00:00:00Z\",\""
    ++ family ++ "_dockerfile_sha1\":\"a\"\x7d\x7d\x7d"

/-- The engine, with the labels of the images. -/
def labelledEngine : Server := fun requests =>
  match requests.getLast? with
  | some (.engine _ (.inspect reference)) =>
    if reference ∈ ImageKind.toolchain.map fun kind => kind.reference "user" "7" then
      .reply ⟨200, none, .text (labelled "llvm_project")⟩
    else
      .reply ⟨200, none, .text (labelled "onnx_mlir")⟩
  | some (.engine _ (.removeImage _)) => .reply ⟨200, none, .text "[]"⟩
  | some (.engine _ _) => .reply ⟨200, none, .stream [] true⟩
  | _ => .unreachable

theorem isFor : IsFor "user" "7" settings := ⟨rfl, rfl⟩

theorem run_llvm : ((llvm settings environment "/").run engine world).1 = .ok () :=
  eq_ok_of_toOption (by decide +kernel)

theorem length_orders :
    (orders ((build settings environment "/").exchanges engine world)).length = 2 := by
  decide +kernel

theorem length_inspections :
    (inspections ((publish settings environment).exchanges labelledEngine world)).length = 4 := by
  decide +kernel

end Stages

/-- Two product images are ordered on bases that were supplied, and the four are inspected. -/
theorem stages_share_references_all :
    (∃ e expected earlier, ∃ rounds : List Preparation,
      (llvm Stages.settings Stages.environment "/").exchanges Stages.engine Stages.world =
        earlier ++ rounds.flatMap (Preparation.exchanges e "user" "7" expected) ∧
      ∀ order ∈ orders ((build Stages.settings Stages.environment "/").exchanges Stages.engine
          Stages.world),
        ∃ round ∈ rounds, ∃ reference, order.base? = some reference ∧
          Supplied reference (round.exchanges e "user" "7" expected)) ∧
    inspections ((publish Stages.settings Stages.environment).exchanges Stages.labelledEngine
        Stages.world) =
      (orders ((build Stages.settings Stages.environment "/").exchanges Stages.engine
        Stages.world)).filterMap BuildOrder.base? ++
      (orders ((build Stages.settings Stages.environment "/").exchanges Stages.engine
        Stages.world)).map BuildOrder.name := by
  obtain ⟨hsupplied, hinspected⟩ := stages_share_references Stages.isFor Stages.isFor Stages.isFor
    Stages.environment Stages.environment Stages.environment "/" "/" Stages.engine Stages.engine
    Stages.labelledEngine Stages.world Stages.world Stages.world
  refine ⟨?_, hinspected (by decide) Stages.length_inspections Stages.length_orders⟩
  obtain ⟨e, expected, earlier, rounds, hes, -, horders⟩ := hsupplied Stages.run_llvm
  refine ⟨e, expected, earlier, rounds, hes, ?_⟩
  intro order horder
  obtain ⟨kind, -, -, -, round, hround, -, hbase⟩ := horders order horder
  exact ⟨round, hround, hbase⟩

end Command

end ImagePipeline
