import ImagePipeline.Command.Publish
import ImagePipeline.Proofs.CommandTranscript
import ImagePipeline.Proofs.ServiceTranscript
import Mathlib.Logic.ExistsUnique

/-!
# What stands behind every publication

The publishing command goes through the images in order.  For each it asks the engine for the
labels of the local image, the registry for those of the published one and the source host whether
the pull request can be merged; the gate decides on these answers, and only then does anything
change.

* `Round`: the exchanges made for one image, in four stages.
* `Round.Judged`: the verdict on a round, a function of its answers by `Round.Judged.unique`.
* `Round.Conducted`: the ways a round can go; `conducted_of_yields` and `rounds_of_yields` find
  the rounds in a transcript.
* `publish_justified`: in the log of a run, every request that changes an image stands behind the
  questions of its own round, and the gate let that round pass.
-/

namespace ImagePipeline

open Files (Tree)
open Program

/-- A request to the engine that names an image, sends it or removes it. -/
def Request.Publishes : Request → Prop
  | .engine _ (.tagImage _ _ _) => True
  | .engine _ (.push _ _ _) => True
  | .engine _ (.removeImage _) => True
  | _ => False

theorem Request.IsWeb.not_publishes {q : Request} (h : q.IsWeb) : ¬ q.Publishes := by
  cases q with
  | web request => exact id
  | engine endpoint call => exact h.elim

namespace Command

/-- What is exchanged for one image on the way to the registry. -/
structure Round where
  kind : ImageKind
  /-- What the engine tells about the local image. -/
  inspection : Answer
  /-- The lookup of the published image. -/
  lookup : List Exchange
  /-- The question whether the pull request can be merged. -/
  inquiry : List Exchange
  /-- The publication. -/
  transfer : List Exchange

/-- The local image of a kind. -/
def localImage (s : Settings) (user pr : String) (kind : ImageKind) : String :=
  Engine.tagged (kind.repository user) (PullRequest.localTag s.pr.trigger pr)

/-- The labels of a lookup that counts: it has not failed, and they are valid. -/
def countedLabels {ε : Type} (kind : ImageKind) (image : String) (labels : Except ε Labels) :
    Option ValidLabels :=
  labels.toOption.bind fun ls => (ls.validate kind.family image).toOption

/-- The exchanges `es` find out whether the pull request can be merged.  Without a pull request
there is no question; a state that cannot be found out says no. -/
inductive Inquiry (s : Settings) (t : Tree) : List Exchange → Bool → Prop where
  | spared (hurl : s.pr.requestUrl = none) : Inquiry s t [] true
  | failed {url : String} {es : List Exchange} {error : ServiceError}
      (hurl : s.pr.requestUrl = some url)
      (hsent : Fetch.Begun (SourceHost.request ⟨s.githubToken⟩ .get url) es)
      (hes : (SourceHost.mergeability ⟨s.githubToken⟩ url).Yields t es t (.error error)) :
      Inquiry s t es false
  | told {url : String} {es : List Exchange} {state : PullRequest.Mergeability}
      (hurl : s.pr.requestUrl = some url)
      (hsent : Fetch.Begun (SourceHost.request ⟨s.githubToken⟩ .get url) es)
      (hes : (SourceHost.mergeability ⟨s.githubToken⟩ url).Yields t es t (.ok state)) :
      Inquiry s t es state.allowsMerge

namespace Round

variable (e : EngineEndpoint) (s : Settings) (user pr : String)

/-- The questions of a round, before the gate decides. -/
def questions (round : Round) : List Exchange :=
  ⟨.engine e (.inspect (localImage s user pr round.kind)), round.inspection⟩ ::
    (round.lookup ++ round.inquiry)

/-- All exchanges of a round. -/
def exchanges (round : Round) : List Exchange := round.questions e s user pr ++ round.transfer

/-- The verdict on the answers of a round: the local image has valid labels, the lookup asks for
the image of the architecture, and the gate decides. -/
inductive Judged (t : Tree) (round : Round) : Gate.Verdict → Prop where
  | intro {own : ValidLabels} {published : Except ServiceError Labels} {mergeable : Bool}
      (hown : countedLabels round.kind (localImage s user pr round.kind)
        (Engine.toldLabels (localImage s user pr round.kind) round.inspection) = some own)
      (hasked : (Registry.ofEndpoints s.endpoints).Asked (round.kind.repository user) s.cpuArch t
        round.lookup)
      (hlookup : ((Registry.ofEndpoints s.endpoints).labels (round.kind.repository user)
        s.cpuArch).Yields t round.lookup t published)
      (hinquiry : Inquiry s t round.inquiry mergeable) :
      Judged t round (Gate.decide own
        (countedLabels round.kind (Engine.tagged (round.kind.repository user) s.cpuArch) published)
        (decide (s.pr.trigger = .publish)) mergeable)

end Round

theorem Inquiry.unique {s : Settings} {t : Tree} {es : List Exchange} {a b : Bool}
    (ha : Inquiry s t es a) (hb : Inquiry s t es b) : a = b := by
  cases ha with
  | spared hurl =>
    cases hb with
    | spared => rfl
    | failed hurl' => exact nomatch hurl.symm.trans hurl'
    | told hurl' => exact nomatch hurl.symm.trans hurl'
  | failed hurl _ hes =>
    cases hb with
    | spared hurl' => exact nomatch hurl.symm.trans hurl'
    | failed => rfl
    | told hurl' _ hes' =>
      obtain rfl := Option.some.inj (hurl.symm.trans hurl')
      exact nomatch (hes.unique hes').2
  | told hurl _ hes =>
    cases hb with
    | spared hurl' => exact nomatch hurl.symm.trans hurl'
    | failed hurl' _ hes' =>
      obtain rfl := Option.some.inj (hurl.symm.trans hurl')
      exact nomatch (hes.unique hes').2
    | told hurl' _ hes' =>
      obtain rfl := Option.some.inj (hurl.symm.trans hurl')
      cases (hes.unique hes').2
      rfl

/-- The answers of a round decide its verdict. -/
theorem Round.Judged.unique {s : Settings} {user pr : String} {t : Tree} {round : Round}
    {v v' : Gate.Verdict} (h : round.Judged s user pr t v) (h' : round.Judged s user pr t v') :
    v = v' := by
  obtain ⟨hown, -, hlookup, hinquiry⟩ := h
  obtain ⟨hown', -, hlookup', hinquiry'⟩ := h'
  cases hown.symm.trans hown'
  cases (hlookup.unique hlookup').2
  cases hinquiry.unique hinquiry'
  rfl

/-! ## The stages of a round -/

variable {e : EngineEndpoint} {s : Settings} {env : Environment} {user pr : String} {t t' : Tree}
  {es : List Exchange}

theorem lookup_of_yields {kind : ImageKind} {repository : String}
    {r : Except Failure (Option ValidLabels)}
    (h : (remoteValidLabels s kind repository).Yields t es t' r) :
    t' = t ∧ (Registry.ofEndpoints s.endpoints).Asked repository s.cpuArch t es ∧
      ∃ published,
        ((Registry.ofEndpoints s.endpoints).labels repository s.cpuArch).Yields t es t published ∧
        r = .ok (countedLabels kind (Engine.tagged repository s.cpuArch) published) := by
  unfold remoteValidLabels at h
  obtain ⟨published, lookup, t₁, rest, hlookup, h₁, rfl⟩ := yields_attempt_bind.1 h
  obtain ⟨rfl, rfl, rfl⟩ := yields_pure.1 h₁
  obtain ⟨rfl, hasked⟩ := Registry.asked_of_yields_labels hlookup
  rw [List.append_nil]
  exact ⟨rfl, hasked, published, hlookup, rfl⟩

theorem inquiry_of_yields {r : Except Failure Bool} (h : (mergeable s).Yields t es t' r) :
    t' = t ∧ ∃ answer, Inquiry s t es answer ∧ r = .ok answer := by
  unfold mergeable at h
  cases hurl : s.pr.requestUrl with
  | none =>
    rw [hurl] at h
    obtain ⟨rfl, rfl, rfl⟩ := yields_pure.1 h
    exact ⟨rfl, true, .spared hurl, rfl⟩
  | some url =>
    rw [hurl] at h
    obtain ⟨state, inquiry, t₁, rest, hinquiry, h₁, rfl⟩ := yields_attempt_bind.1 h
    obtain ⟨rfl, rfl, rfl⟩ := yields_pure.1 h₁
    obtain ⟨rfl, hsent⟩ := SourceHost.begun_of_yields_mergeability hinquiry
    rw [List.append_nil]
    refine ⟨rfl, _, ?_, rfl⟩
    cases state with
    | error error => exact .failed hurl hsent hinquiry
    | ok state => exact .told hurl hsent hinquiry

theorem forces_eq (trigger : PullRequest.Trigger) :
    trigger.forces = decide (trigger = .publish) := by
  cases trigger <;> rfl

/-- Once the gate has decided, the image is published or nothing more is exchanged. -/
theorem transfer_of_yields {v : Gate.Verdict} {repository localTag arch opening refusal : String}
    {closing : String → String} {r : Except Failure Unit}
    (h : (if v.publish then do
        writeLine opening
        let pushed ← (Engine.publish e (credentials s env) env repository localTag arch).mapError
          Failure.image
        writeLine (closing pushed)
      else writeLine refusal).Yields t es t' r) :
    t' = t ∧ ((v.publish = false ∧ es = [] ∧ r = .ok ()) ∨
      (v.publish = true ∧ ∃ r₀,
        Engine.Publication e (credentials s env) env repository localTag arch t es r₀ ∧
        r = (r₀.mapError .image).map fun _ => ())) := by
  cases hpublish : v.publish with
  | false =>
    rw [hpublish] at h
    obtain ⟨rfl, rfl, rfl⟩ := yields_writeLine.1 h
    exact ⟨rfl, .inl ⟨rfl, rfl, rfl⟩⟩
  | true =>
    rw [hpublish, if_pos rfl, yields_writeLine_bind] at h
    rcases yields_bind.1 h with ⟨failure, h₁, rfl⟩ | ⟨pushed, pushes, t₁, rest, h₁, h₂, rfl⟩
    · obtain ⟨r₀, h₀, hr₀⟩ := yields_mapError.1 h₁
      obtain ⟨rfl, htransfer⟩ := Engine.publication_of_yields h₀
      exact ⟨rfl, .inr ⟨rfl, r₀, htransfer, by rw [← hr₀]; rfl⟩⟩
    · obtain ⟨rfl, rfl, rfl⟩ := yields_writeLine.1 h₂
      obtain ⟨r₀, h₀, hr₀⟩ := yields_mapError.1 h₁
      obtain ⟨rfl, htransfer⟩ := Engine.publication_of_yields h₀
      rw [List.append_nil]
      exact ⟨rfl, .inr ⟨rfl, r₀, htransfer, by rw [← hr₀]; rfl⟩⟩

/-- The ways a round can go: the local image is not fit, the gate says no, or it says yes and the
image is published. -/
inductive Round.Conducted (e : EngineEndpoint) (s : Settings) (env : Environment)
    (user pr : String) (t : Tree) (round : Round) : Except Failure Unit → Prop where
  | stopped {failure : Failure}
      (hown : countedLabels round.kind (localImage s user pr round.kind)
        (Engine.toldLabels (localImage s user pr round.kind) round.inspection) = none)
      (hlookup : round.lookup = []) (hinquiry : round.inquiry = [])
      (htransfer : round.transfer = []) :
      Conducted e s env user pr t round (.error failure)
  | withheld {v : Gate.Verdict} (hv : round.Judged s user pr t v) (hpublish : v.publish = false)
      (htransfer : round.transfer = []) :
      Conducted e s env user pr t round (.ok ())
  | passed {v : Gate.Verdict} {r : Except ImageError String}
      (hv : round.Judged s user pr t v) (hpublish : v.publish = true)
      (htransfer : Engine.Publication e (credentials s env) env (round.kind.repository user)
        (PullRequest.localTag s.pr.trigger pr) s.cpuArch t round.transfer r) :
      Conducted e s env user pr t round ((r.mapError .image).map fun _ => ())

theorem conducted_of_yields {kind : ImageKind} {r : Except Failure Unit}
    (h : (publishImage e s env user pr kind).Yields t es t' r) :
    t' = t ∧ ∃ round : Round, round.kind = kind ∧ es = round.exchanges e s user pr ∧
      round.Conducted e s env user pr t r := by
  unfold publishImage onImages at h
  dsimp only at h
  rw [yields_writeLine_bind, yields_writeLine_bind, Engine.labels_eq, ask_mapError,
    ← localImage] at h
  obtain ⟨inspection, rest, rfl, hinspection⟩ := yields_ask_bind.1 h
  have hstopped (failure : Failure) (hown : countedLabels kind (localImage s user pr kind)
      (Engine.toldLabels (localImage s user pr kind) inspection) = none) :
      Round.Conducted e s env user pr t ⟨kind, inspection, [], [], []⟩ (.error failure) :=
    .stopped hown rfl rfl rfl
  cases htold : Engine.toldLabels (localImage s user pr kind) inspection with
  | error error =>
    rw [htold] at hinspection hstopped
    rcases hinspection with ⟨failure, -, rfl, rfl, rfl⟩ | ⟨labels, hlabels, -⟩
    · exact ⟨rfl, ⟨kind, inspection, [], [], []⟩, rfl, rfl, hstopped failure rfl⟩
    · cases hlabels
  | ok labels =>
    rw [htold] at hinspection
    rcases hinspection with ⟨failure, hlabels, -⟩ | ⟨labels', hlabels, h₁⟩
    · cases hlabels
    cases hlabels
    cases hvalid : labels.validate kind.family (localImage s user pr kind) with
    | error refusal =>
      rw [hvalid] at h₁
      obtain ⟨rfl, rfl, rfl⟩ := yields_fail.1 h₁
      refine ⟨rfl, ⟨kind, inspection, [], [], []⟩, rfl, rfl, hstopped (.refusal refusal) ?_⟩
      rw [htold, countedLabels, Except.toOption, Option.bind_some, hvalid, Except.toOption]
    | ok own =>
      rw [hvalid] at h₁
      have hown : countedLabels kind (localImage s user pr kind)
          (Engine.toldLabels (localImage s user pr kind) inspection) = some own := by
        rw [htold, countedLabels, Except.toOption, Option.bind_some, hvalid, Except.toOption]
      rcases yields_ofExcept_bind.1 h₁ with ⟨_, herror, -⟩ | ⟨_, hown', h₂⟩
      · cases herror
      cases hown'
      rcases yields_bind.1 h₂ with ⟨failure, hlookup, -⟩ | ⟨_, lookup, t₁, rest, hlookup, h₃, rfl⟩
      · obtain ⟨-, -, _, -, herror⟩ := lookup_of_yields hlookup
        cases herror
      obtain ⟨rfl, hasked, published, hpublished, hcounted⟩ := lookup_of_yields hlookup
      cases hcounted
      rcases yields_bind.1 h₃ with ⟨failure, hinquiry, -⟩ |
        ⟨_, inquiry, t₂, transfer, hinquiry, h₄, rfl⟩
      · obtain ⟨-, _, -, herror⟩ := inquiry_of_yields hinquiry
        cases herror
      obtain ⟨rfl, mergeable, hmergeable, hanswer⟩ := inquiry_of_yields hinquiry
      cases hanswer
      rw [forces_eq] at h₄
      have hjudged : Round.Judged s user pr t₂ ⟨kind, inspection, lookup, inquiry, transfer⟩ _ :=
        .intro hown hasked hpublished hmergeable
      obtain ⟨rfl, htransfer⟩ := transfer_of_yields h₄
      refine ⟨rfl, ⟨kind, inspection, lookup, inquiry, transfer⟩, rfl, ?_, ?_⟩
      · simp only [Round.exchanges, Round.questions, List.cons_append, List.append_assoc]
      rcases htransfer with ⟨hpublish, rfl, rfl⟩ | ⟨hpublish, r₀, htransfer, rfl⟩
      · exact .withheld hjudged hpublish rfl
      · exact .passed hjudged hpublish htransfer

/-! ## The run -/

/-- A run over some kinds is made of rounds, one for each kind in order. -/
theorem rounds_of_yields {kinds : List ImageKind} {r : Except Failure Unit}
    (h : (publishImages e s env user pr kinds).Yields t es t' r) :
    t' = t ∧ ∃ rounds : List Round, es = rounds.flatMap (Round.exchanges e s user pr) ∧
      Rounds Round.kind (Round.Conducted e s env user pr t) kinds rounds r :=
  loop_of_yields rfl (fun _ _ => rfl) (fun _ _ _ _ _ => conducted_of_yields) h

/-! ## What changes images -/

theorem Round.not_publishes_of_questions {round : Round}
    (hlookup : ∀ x ∈ round.lookup, x.request.IsWeb)
    (hinquiry : ∀ x ∈ round.inquiry, x.request.IsWeb) :
    ∀ x ∈ round.questions e s user pr, ¬ x.request.Publishes := by
  intro x hx
  rcases List.mem_cons.1 hx with rfl | hx
  · exact id
  · rcases List.mem_append.1 hx with hx | hx
    · exact (hlookup x hx).not_publishes
    · exact (hinquiry x hx).not_publishes

theorem Inquiry.forall_isWeb {answer : Bool} (h : Inquiry s t es answer) :
    ∀ x ∈ es, x.request.IsWeb := by
  cases h with
  | spared => exact fun x hx => absurd hx List.not_mem_nil
  | failed _ _ hes => exact hes.forall_request (SourceHost.only_isWeb_mergeability _ _)
  | told _ _ hes => exact hes.forall_request (SourceHost.only_isWeb_mergeability _ _)

theorem Round.Judged.not_publishes {round : Round} {v : Gate.Verdict}
    (h : round.Judged s user pr t v) :
    ∀ x ∈ round.questions e s user pr, ¬ x.request.Publishes := by
  obtain ⟨-, -, hlookup, hinquiry⟩ := h
  exact Round.not_publishes_of_questions
    (hlookup.forall_request (Registry.only_isWeb_labels _ _ _)) hinquiry.forall_isWeb

/-- In a round, a request that changes an image comes after the questions, and the gate has let
the image pass. -/
theorem Round.Conducted.split {round : Round} {r : Except Failure Unit} {x : Exchange}
    {first rest : List Exchange} (h : round.Conducted e s env user pr t r)
    (hround : round.exchanges e s user pr = first ++ x :: rest) (hx : x.request.Publishes) :
    ∃ sent, first = round.questions e s user pr ++ sent ∧ round.transfer = sent ++ x :: rest ∧
      ∃ v, round.Judged s user pr t v ∧ v.publish = true := by
  have hquestions : ∀ y ∈ round.questions e s user pr, ¬ y.request.Publishes := by
    cases h with
    | stopped _ hlookup hinquiry =>
      refine not_publishes_of_questions ?_ ?_
      · exact fun y hy => absurd (hlookup ▸ hy) List.not_mem_nil
      · exact fun y hy => absurd (hinquiry ▸ hy) List.not_mem_nil
    | withheld hv => exact hv.not_publishes
    | passed hv => exact hv.not_publishes
  have hafter : ∃ sent, first = round.questions e s user pr ++ sent ∧
      round.transfer = sent ++ x :: rest := by
    rcases List.append_eq_append_iff.1 hround with ⟨sent, hfirst, htransfer⟩ | ⟨sent, hq, hrest⟩
    · exact ⟨sent, hfirst, htransfer⟩
    · cases sent with
      | nil => exact ⟨[], by rw [hq, List.append_nil, List.append_nil], hrest.symm⟩
      | cons y sent =>
        obtain ⟨rfl, -⟩ := List.cons.inj hrest
        exact absurd hx (hquestions x (hq ▸ List.mem_append_right _ List.mem_cons_self))
  obtain ⟨sent, hfirst, htransfer⟩ := hafter
  refine ⟨sent, hfirst, htransfer, ?_⟩
  cases h with
  | stopped _ _ _ hnone =>
    rw [htransfer] at hnone
    exact absurd hnone (List.append_ne_nil_of_right_ne_nil _ (List.cons_ne_nil _ _))
  | withheld _ _ hnone =>
    rw [htransfer] at hnone
    exact absurd hnone (List.append_ne_nil_of_right_ne_nil _ (List.cons_ne_nil _ _))
  | passed hv hpublish => exact ⟨_, hv, hpublish⟩

theorem repository_injective (user : String) {kind kind' : ImageKind}
    (h : kind.repository user = kind'.repository user) : kind = kind' := by
  have himage := (String.append_right_inj _).1 h
  revert himage
  cases kind <;> cases kind' <;> decide

theorem Round.Conducted.repository_eq {round : Round} {r : Except Failure Unit} {x : Exchange}
    {e' : EngineEndpoint} {repository tag : String} {sender : Option Credentials}
    (h : round.Conducted e s env user pr t r) (hx : x ∈ round.transfer)
    (hpush : x.request = .engine e' (.push repository tag sender)) :
    repository = round.kind.repository user := by
  cases h with
  | stopped _ _ _ htransfer => exact absurd (htransfer ▸ hx) List.not_mem_nil
  | withheld _ _ htransfer => exact absurd (htransfer ▸ hx) List.not_mem_nil
  | passed _ _ htransfer => exact htransfer.repository_eq hx hpush

/-- A round that has gone well, with the gate letting the image pass, has pushed it. -/
theorem Round.Conducted.exists_push {round : Round} {v : Gate.Verdict}
    (h : round.Conducted e s env user pr t (.ok ())) (hv : round.Judged s user pr t v)
    (hpublish : v.publish = true) :
    ∃ x ∈ round.transfer, ∃ sender,
      x.request = .engine e (.push (round.kind.repository user) s.cpuArch sender) := by
  generalize hr : (.ok () : Except Failure Unit) = r at h
  cases h with
  | stopped => cases hr
  | withheld hv' hwithheld =>
    rw [hv.unique hv', hwithheld] at hpublish
    cases hpublish
  | @passed _ r₀ _ _ htransfer =>
    cases r₀ with
    | error error => cases hr
    | ok image => exact htransfer.exists_push

/-- What the log of a run says about its publications. -/
structure PublicationLog (e : EngineEndpoint) (s : Settings) (user pr : String) (t : Tree)
    (es : List Exchange) (result : Except Failure Unit) (rounds : List Round) : Prop where
  /-- The log is made of the rounds, -/
  made : es = rounds.flatMap (Round.exchanges e s user pr)
  /-- which are those of the kinds in order, as far as the run gets. -/
  ordered : rounds.map Round.kind <+: ImageKind.all
  /-- A request that changes an image is in the round of exactly one kind, behind the questions
  of that round; and their answers let the image pass. -/
  justified : ∀ before x after, es = before ++ x :: after → x.request.Publishes →
    ∃! kind, ∃ earlier round later sent rest, round.kind = kind ∧
      rounds = earlier ++ round :: later ∧
      before = earlier.flatMap (Round.exchanges e s user pr) ++
        (round.questions e s user pr ++ sent) ∧
      round.transfer = sent ++ x :: rest ∧
      ∃ v, round.Judged s user pr t v ∧ v.publish = true
  /-- If the run does not fail then every kind has its round, and the kinds that are pushed are
  those that the gate lets pass. -/
  complete : result = .ok () → rounds.map Round.kind = ImageKind.all ∧ ∀ kind : ImageKind,
    (∃ x ∈ es, ∃ credentials,
      x.request = .engine e (.push (kind.repository user) s.cpuArch credentials)) ↔
    ∃ round ∈ rounds, round.kind = kind ∧ ∃ v, round.Judged s user pr t v ∧ v.publish = true

theorem publicationLog_of_yields {r : Except Failure Unit}
    (h : (publishImages e s env user pr ImageKind.all).Yields t es t' r) :
    ∃ rounds, PublicationLog e s user pr t es r rounds := by
  obtain ⟨rfl, rounds, rfl, hrounds⟩ := rounds_of_yields h
  refine ⟨rounds, rfl, hrounds.keys_prefix, ?_, ?_⟩
  · intro before x after hes hx
    obtain ⟨earlier, round, later, first, rest, rfl, rfl, hround, rfl⟩ :=
      exists_round_of_flatMap_eq hes
    obtain ⟨r₁, hconducted, -⟩ := hrounds.conducted_of_eq rfl
    obtain ⟨sent, rfl, htransfer, hv⟩ := hconducted.split hround hx
    refine ⟨round.kind, ⟨earlier, round, later, sent, rest, rfl, rfl, rfl, htransfer, hv⟩, ?_⟩
    rintro kind ⟨earlier', round', later', sent', rest', rfl, hrounds', hbefore, htransfer', -⟩
    have hround' : round'.exchanges e s user pr =
        (round'.questions e s user pr ++ sent') ++ x :: rest' := by
      rw [Round.exchanges, htransfer', List.append_assoc]
    rw [(eq_of_flatMap_append_eq hrounds' hround hround' hbefore).2]
  · rintro rfl
    have hconducted : ∀ round ∈ rounds, round.Conducted e s env user pr _ (.ok ()) :=
      fun round hround => hrounds.conducted_ok hround
    refine ⟨hrounds.keys_eq, fun kind => ⟨?_, ?_⟩⟩
    · rintro ⟨x, hx, credentials, hpush⟩
      obtain ⟨round, hround, hxround⟩ := List.mem_flatMap.1 hx
      obtain ⟨first, rest, hsplit⟩ := List.append_of_mem hxround
      have hpublishes : x.request.Publishes := by rw [hpush]; trivial
      obtain ⟨sent, -, htransfer, v, hv, hpublish⟩ :=
        (hconducted round hround).split hsplit hpublishes
      refine ⟨round, hround, ?_, v, hv, hpublish⟩
      have hmem : x ∈ round.transfer := htransfer ▸ List.mem_append_right _ List.mem_cons_self
      exact repository_injective user ((hconducted round hround).repository_eq hmem hpush).symm
    · rintro ⟨round, hround, rfl, v, hv, hpublish⟩
      obtain ⟨x, hx, hpush⟩ := (hconducted round hround).exists_push hv hpublish
      exact ⟨x, List.mem_flatMap.2 ⟨round, hround, List.mem_append_right _ hx⟩, hpush⟩

/-- **Publications are justified.**  Whatever the server, the exchanges `es` of a run either
are none, because a setting is missing or the engine has no address, or they are a publication
log: the log of the run is their requests, and their answers are those of the server to the
requests so far. -/
theorem publish_justified (s : Settings) (env : Environment) (server : Server) (w : World) :
    ∃ es : List Exchange,
      ((publish s env).run server w).2.requests = w.requests ++ es.map (·.request) ∧
      (∀ before x after, es = before ++ x :: after →
        x.answer = server (w.requests ++ before.map (·.request) ++ [x.request])) ∧
      ((es = [] ∧ ∃ failure, ((publish s env).run server w).1 = .error failure) ∨
        ∃ user pr e rounds, s.requireDockerhubUser = .ok user ∧ s.requirePrNumber = .ok pr ∧
          (EngineAddress.read s.dockerSocket).connect w.tree env = .ok e ∧
          PublicationLog e s user pr w.tree es ((publish s env).run server w).1 rounds) := by
  refine ⟨(publish s env).exchanges server w, requests_run server w _,
    fun _ _ _ h => answer_of_exchanges_eq h, ?_⟩
  have h := yields_run server w (publish s env)
  generalize ((publish s env).run server w).1 = result at h
  generalize (publish s env).exchanges server w = es at h
  unfold publish at h
  rcases setting_of_yields h with ⟨failure, rfl, rfl, -⟩ | ⟨user, huser, h₁⟩
  · exact .inl ⟨rfl, failure, rfl⟩
  rcases setting_of_yields h₁ with ⟨failure, rfl, rfl, -⟩ | ⟨pr, hpr, h₂⟩
  · exact .inl ⟨rfl, failure, rfl⟩
  rcases connect_of_yields h₂ with ⟨failure, rfl, rfl, -⟩ | ⟨e, he, h₃⟩
  · exact .inl ⟨rfl, failure, rfl⟩
  rw [yields_writeLine_bind] at h₃
  obtain ⟨rounds, hlog⟩ := publicationLog_of_yields h₃
  exact .inr ⟨user, pr, e, rounds, huser, hpr, he, hlog⟩

end Command

end ImagePipeline
