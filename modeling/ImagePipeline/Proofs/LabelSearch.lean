import ImagePipeline.Proofs.PlanOutcome
import ImagePipeline.Proofs.RegistryLabels
import ImagePipeline.Proofs.SharedReferences

/-!
# Searching by labels

Whether a toolchain image is the one that is needed is decided twice.  The engine is sent filters,
texts of the form `key=value`, and finds the images that it holds; the labels of the registry's
image are looked at here.  An engine that cuts a filter at its first `=`, and wants the label with
exactly the value behind it, decides as is done here, whatever the texts hold.

* `EngineFilters`: the rule of an engine for label filters; `Tells`, what a search comes to by it.
* `EngineFilters.agreesWith_iff`: labels agree with a provenance if they satisfy its filters.
* `Command.Reuses`: an image is made ready by a search that finds it;
  `Preparation.Conducted.reuses_iff`, by what the search comes to.
* `Preparation.Conducted.pulls_iff`: what it takes that an image is pulled;
  `exists_isPull_iff_of_run`, by what the registry tells in a run.
* `search_agrees_with_registry`: an image is used if and only if the registry's image would be
  pulled for the same labels.
-/

namespace ImagePipeline

open Files (Tree)
open Program

/-! ## Filters -/

/-- An image that the engine holds. -/
structure HeldImage where
  id : String
  /-- The names under which it is held. -/
  names : List String
  labels : Labels

/-- How an engine tests its images against filters.  All that is asked of it is the rule for
labels. -/
structure EngineFilters where
  /-- Whether an image passes the filter of a name with these values. -/
  admits : HeldImage → String → List String → Prop
  /-- Whether labels satisfy a label filter. -/
  satisfies : Labels → String → Prop
  /-- The labels have to satisfy all label filters. -/
  admits_label : ∀ image filters,
    admits image "label" filters ↔ ∀ filter ∈ filters, satisfies image.labels filter
  /-- A filter is cut at its first `=`, and the labels have to have the key with the value. -/
  satisfies_iff : ∀ labels filter key value, Text.cut '=' filter = some (key, value) →
    (satisfies labels filter ↔ labels.get? key = some value)

namespace EngineFilters

variable {engine : EngineFilters} {expected : Toolchain.Provenance} {labels : Labels}
  {held : List HeldImage} {image : HeldImage} {answer : Answer} {user pr : String}
  {kind : ImageKind}

/-- The image passes all filters of a query. -/
def Selects (engine : EngineFilters) (q : ImageQuery) (image : HeldImage) : Prop :=
  ∀ f ∈ q.filters, engine.admits image f.1 f.2

/-- The answer to a query tells the images held that the query selects. -/
def Tells (engine : EngineFilters) (held : List HeldImage) (q : ImageQuery) (answer : Answer) :
    Prop :=
  ∃ ids, Engine.toldIds answer = .ok ids ∧
    ∀ id, id ∈ ids ↔ ∃ image ∈ held, engine.Selects q image ∧ image.id = id

/-- The image is one of that name. -/
def Named (engine : EngineFilters) (image : HeldImage) (reference : String) : Prop :=
  engine.admits image "reference" [reference]

/-- What is held under a name has these labels. -/
def HoldsWith (engine : EngineFilters) (held : List HeldImage) (reference : String)
    (labels : Labels) : Prop :=
  (∃ image ∈ held, engine.Named image reference) ∧
    ∀ image ∈ held, engine.Named image reference → image.labels = labels

/-- A filter is cut where it was put together, if the key is without `=`. -/
theorem cut_labelFilter {key : String} (hkey : '=' ∉ key.toList) (value : String) :
    Text.cut '=' (Toolchain.Provenance.labelFilter key value) = some (key, value) :=
  Text.cut_eq_some_iff.2 ⟨rfl, hkey⟩

/-- Labels agree with a provenance if and only if they satisfy its filters. -/
theorem agreesWith_iff (engine : EngineFilters) (expected : Toolchain.Provenance)
    (labels : Labels) : expected.agreesWith labels = true ↔
      ∀ filter ∈ expected.labelFilters, engine.satisfies labels filter := by
  have hkeys : '=' ∉ Toolchain.Provenance.keys.commit.toList ∧
      '=' ∉ Toolchain.Provenance.keys.recipeHash.toList := by decide
  have hcommit := engine.satisfies_iff labels _ _ _ (cut_labelFilter hkeys.1 expected.commit)
  have hrecipe := engine.satisfies_iff labels _ _ _ (cut_labelFilter hkeys.2 expected.recipeHash)
  rw [Toolchain.Provenance.agreesWith_iff, ← hcommit, ← hrecipe]
  simp [Toolchain.Provenance.labelFilters]

/-- The search for a toolchain image selects by its name and its labels. -/
theorem selects_query_iff : engine.Selects (Command.Preparation.query user pr expected kind) image ↔
    engine.Named image (kind.reference user pr) ∧ expected.agreesWith image.labels = true := by
  have hfilters : (Command.Preparation.query user pr expected kind).filters =
      [("reference", [kind.reference user pr]), ("label", expected.labelFilters)] := rfl
  rw [Selects, hfilters, agreesWith_iff engine, ← admits_label]
  simp [Named]

/-- A search finds something if and only if something of that name agrees with the provenance. -/
theorem Tells.exists_cons_iff
    (h : engine.Tells held (Command.Preparation.query user pr expected kind) answer) :
    (∃ id ids, Engine.toldIds answer = .ok (id :: ids)) ↔
      ∃ image ∈ held, engine.Named image (kind.reference user pr) ∧
        expected.agreesWith image.labels = true := by
  obtain ⟨ids, hids, hmem⟩ := h
  simp only [selects_query_iff] at hmem
  constructor
  · rintro ⟨id, rest, hcons⟩
    obtain rfl := Except.ok.inj (hids.symm.trans hcons)
    obtain ⟨image, himage, hselects, -⟩ := (hmem id).1 List.mem_cons_self
    exact ⟨image, himage, hselects⟩
  · rintro ⟨image, himage, hselects⟩
    have hfound : image.id ∈ ids := (hmem image.id).2 ⟨image, himage, hselects, rfl⟩
    obtain ⟨id, rest, rfl⟩ := List.exists_cons_of_ne_nil (List.ne_nil_of_mem hfound)
    exact ⟨id, rest, hids⟩

/-- Where what is held under a name has the same labels, one of it will do for all. -/
theorem HoldsWith.exists_named_iff {reference : String} {P : Labels → Prop}
    (h : engine.HoldsWith held reference labels) :
    (∃ image ∈ held, engine.Named image reference ∧ P image.labels) ↔ P labels := by
  obtain ⟨⟨image, himage, hnamed⟩, hlabels⟩ := h
  constructor
  · rintro ⟨other, hother, hname, hP⟩
    exact hlabels other hother hname ▸ hP
  · exact fun hP => ⟨image, himage, hnamed, (hlabels image himage hnamed).symm ▸ hP⟩

end EngineFilters

/-- The registry's image is the one to pull if and only if its labels agree. -/
theorem Toolchain.plan_eq_pull_iff {expected : Provenance} {labels : Labels} :
    plan expected false (some labels) false = .ok .pull ↔ expected.agreesWith labels = true := by
  constructor
  · intro h
    obtain ⟨-, _, hlabels, hagrees⟩ := plan_eq_pull h
    cases hlabels
    exact hagrees
  · intro h
    obtain ⟨hcommit, hrecipe⟩ := Provenance.agreesWith_iff.1 h
    have hlabels : labels.isEmpty = false := Labels.isEmpty_eq_false_of_get? hcommit
    exact plan_pullable ⟨rfl, labels, rfl, hlabels, hcommit, hrecipe⟩

namespace Command

variable {e : EngineEndpoint} {s : Settings} {env : Environment} {root user pr : String}
  {expected : Toolchain.Provenance} {t t' : Tree} {es : List Exchange} {kind : ImageKind}
  {repository reference : String} {ids : List String} {remote : Option Labels}
  {first settled : Except Refusal Toolchain.Plan} {r : Except Failure Unit} {p : Preparation}

/-! ## An image that is there -/

/-- The search for an image. -/
def searchRequest (e : EngineEndpoint) (user pr : String) (expected : Toolchain.Provenance)
    (kind : ImageKind) : Request :=
  .engine e (.listImages (Preparation.query user pr expected kind))

/-- All that is exchanged for an image is the search and a look at what was found. -/
def Reuses (e : EngineEndpoint) (user pr : String) (expected : Toolchain.Provenance)
    (kind : ImageKind) (es : List Exchange) : Prop :=
  ∃ found shown, es = [⟨searchRequest e user pr expected kind, found⟩,
    ⟨.engine e (.inspect (kind.reference user pr)), shown⟩]

/-- A request for an image that is not there: to a service, or to make the image or a name for
it. -/
def Procures (q : Request) : Prop := q.IsWeb ∨ q.provides = true

theorem Lookup.procures (h : Lookup s repository t ids es remote) :
    ∀ x ∈ es, Procures x.request := by
  intro x hx
  cases h with
  | spared => exact absurd hx List.not_mem_nil
  | made _ hes => exact .inl (hes.forall_request (Registry.only_isWeb_labels _ _ _) x hx)

/-- A pull with its naming sends nothing else. -/
theorem PullAndTag.procures {r : Except ImageError Unit}
    (h : PullAndTag e s env repository pr t es r) : ∀ x ∈ es, Procures x.request := by
  cases h <;> simp [Procures, Request.provides, Request.isPull, Request.isTag]

theorem Settled.procures (h : Settled e s env repository pr t first es settled) :
    ∀ x ∈ es, Procures x.request := by
  cases h with
  | kept => exact fun x hx => absurd hx List.not_mem_nil
  | pulled _ hes => exact hes.procures
  | fellBack _ hes => exact hes.procures

/-- A pull that has been settled on was sent. -/
theorem Settled.ne_nil (h : Settled e s env repository pr t first es (.ok .pull)) : es ≠ [] := by
  cases h with
  | kept hkept => exact absurd rfl hkept
  | pulled _ hes =>
    generalize hr : (.ok () : Except ImageError Unit) = r at hes
    cases hes with
    | refused => cases hr
    | unpulled => exact List.cons_ne_nil _ _
    | pulled => exact List.cons_ne_nil _ _

/-- A plan to build, and a refusal, begin with a request for an image that is not there. -/
theorem CarriedOut.procures_head
    (h : CarriedOut e s env root reference pr expected kind t settled es r)
    (hreuse : settled ≠ .ok .reuse) (hpull : settled ≠ .ok .pull) :
    ∀ x rest, es = x :: rest → Procures x.request := by
  rintro x rest rfl
  cases h with
  | @shown plan =>
    cases plan with
    | reuse => exact absurd rfl hreuse
    | pull => exact absurd rfl hpull
    | build => contradiction
  | built _ hes =>
    cases hes with
    | failed => exact .inr rfl
    | built => exact .inr rfl
  | refused hes =>
    cases hes with
    | posted _ _ _ hes => exact .inl (hes.forall_isWeb x List.mem_cons_self)

namespace Preparation

/-- After a search that finds nothing the first request is for an image that is not there. -/
theorem Conducted.procures_head (h : p.Conducted e s env root user pr expected t r)
    (hunfound : Engine.toldIds p.search = .ok []) :
    ∀ x rest, p.lookup ++ (p.transfer ++ p.finish) = x :: rest → Procures x.request := by
  intro x rest hrest
  obtain ⟨remote, settled, hlookup, hsettled, hfinish⟩ := h.exists_settled hunfound
  cases hl : p.lookup with
  | cons y lookup =>
    rw [hl] at hrest hlookup
    obtain ⟨rfl, -⟩ := List.cons.inj hrest
    exact hlookup.procures y List.mem_cons_self
  | nil =>
    rw [hl] at hrest
    cases ht : p.transfer with
    | cons y transfer =>
      rw [ht] at hrest hsettled
      obtain ⟨rfl, -⟩ := List.cons.inj hrest
      exact hsettled.procures y List.mem_cons_self
    | nil =>
      rw [ht] at hrest hsettled
      refine hfinish.procures_head ?_ ?_ x rest hrest
      · rintro rfl
        cases plan_eq_reuse hsettled.eq_of_reuse
      · rintro rfl
        exact hsettled.ne_nil rfl

/-- An image is used if and only if the search finds one. -/
theorem Conducted.reuses_iff (h : p.Conducted e s env root user pr expected t r) :
    Reuses e user pr expected p.kind (p.exchanges e user pr expected) ↔
      ∃ id ids, Engine.toldIds p.search = .ok (id :: ids) := by
  constructor
  · rintro ⟨found, shown, hes⟩
    obtain ⟨-, hrest⟩ := List.cons.inj hes
    cases hids : Engine.toldIds p.search with
    | error error =>
      cases h with
      | unsearched _ hlookup htransfer hfinish =>
        rw [hlookup, htransfer, hfinish] at hrest
        cases hrest
      | planned hfirst =>
        obtain ⟨_, _, hsearch, -⟩ := hfirst.exists_lookup
        cases hsearch.symm.trans hids
    | ok ids =>
      cases ids with
      | cons id ids => exact ⟨id, ids, rfl⟩
      | nil =>
        rcases h.procures_head hids _ _ hrest with hweb | hprovides
        · exact hweb.elim
        · cases hprovides
  · rintro ⟨id, ids, hids⟩
    obtain ⟨shown, hes⟩ := h.exchanges_of_found hids
    exact ⟨p.search, shown, hes⟩

end Preparation

/-! ## An image that is pulled -/

/-- The engine is told to pull if and only if it is known in whose name. -/
theorem PullAndTag.exists_isPull_iff {r : Except ImageError Unit}
    (h : PullAndTag e s env repository pr t es r) :
    (∃ x ∈ es, x.request.isPull = true) ↔ ∃ sender,
      (credentials s env).find t env.here (Engine.tagged repository s.cpuArch) = .ok sender := by
  cases h with
  | refused hcredentials => simp [hcredentials]
  | unpulled hcredentials => simp [hcredentials, Request.isPull]
  | pulled hcredentials => simp [hcredentials, Request.isPull]

theorem Settled.exists_isPull_iff (h : Settled e s env repository pr t (.ok .pull) es settled) :
    (∃ x ∈ es, x.request.isPull = true) ↔ ∃ sender,
      (credentials s env).find t env.here (Engine.tagged repository s.cpuArch) = .ok sender := by
  cases h with
  | kept hkept => exact absurd rfl hkept
  | pulled _ hes => exact hes.exists_isPull_iff
  | fellBack _ hes => exact hes.exists_isPull_iff

/-- An image is pulled if and only if that is the first plan and it is known in whose name. -/
theorem Preparation.Conducted.pulls_iff (h : p.Conducted e s env root user pr expected t r) :
    (∃ x ∈ p.exchanges e user pr expected, x.request.isPull = true) ↔
      p.FirstPlan s user expected t (.ok .pull) ∧ ∃ sender, (credentials s env).find t env.here
        (Engine.tagged (p.kind.repository user) s.cpuArch) = .ok sender := by
  have htransfer (hfirst : p.FirstPlan s user expected t (.ok .pull)) :
      (∃ x ∈ p.exchanges e user pr expected, x.request.isPull = true) ↔ ∃ sender,
        (credentials s env).find t env.here (Engine.tagged (p.kind.repository user) s.cpuArch) =
          .ok sender := by
    cases h with
    | unsearched hsearch =>
      obtain ⟨_, _, hids, -⟩ := hfirst.exists_lookup
      cases hsearch.symm.trans hids
    | planned hplanned hsettled _ hfinish =>
      cases hplanned.unique hfirst
      obtain ⟨_, _, -, hlookup⟩ := hfirst.exists_lookup
      have hquiet : ∀ x ∈ p.lookup, x.request.isPull = false :=
        fun x hx => Request.isPull_eq_false (hlookup.provides_eq x hx)
      rw [← hsettled.exists_isPull_iff]
      constructor
      · rintro ⟨x, hx, hpull⟩
        rcases List.mem_cons.1 hx with rfl | hx
        · cases hpull
        rcases List.mem_append.1 hx with hx | hx
        · cases (hquiet x hx).symm.trans hpull
        rcases List.mem_append.1 hx with hx | hx
        · exact ⟨x, hx, hpull⟩
        · cases (hfinish.isPull_eq x hx).symm.trans hpull
      · rintro ⟨x, hx, hpull⟩
        exact ⟨x, List.mem_cons_of_mem _
          (List.mem_append_right _ (List.mem_append_left _ hx)), hpull⟩
  constructor
  · rintro ⟨x, hx, hpull⟩
    have hfirst := h.firstPlan_of_isPull hx hpull
    exact ⟨hfirst, (htransfer hfirst).1 ⟨x, hx, hpull⟩⟩
  · rintro ⟨hfirst, hsender⟩
    exact (htransfer hfirst).2 hsender

/-! ## Both in a run -/

/-- A run makes a preparation, whose search is answered by the server. -/
theorem exists_conducted_of_run (e : EngineEndpoint) (s : Settings) (env : Environment)
    (root user pr : String) (expected : Toolchain.Provenance)
    (hkind : kind ∈ ImageKind.toolchain) (server : Server) (w : World) :
    ∃ (p : Preparation) (r : Except Failure Unit),
      p.Conducted e s env root user pr expected w.tree r ∧ p.kind = kind ∧
      (makeReady e s env root user pr expected kind).exchanges server w =
        p.exchanges e user pr expected ∧
      p.search = server (w.requests ++ [searchRequest e user pr expected kind]) := by
  obtain ⟨-, p, rfl, hes, hp⟩ := conducted_of_yields_makeReady hkind
    (yields_run server w (makeReady e s env root user pr expected kind))
  refine ⟨p, _, hp, rfl, hes, ?_⟩
  have hfirst : (makeReady e s env root user pr expected p.kind).exchanges server w =
      [] ++ ⟨searchRequest e user pr expected p.kind, p.search⟩ :: _ := hes
  simpa using answer_of_exchanges_eq hfirst

/-- In a run whose search finds nothing, an image is pulled if and only if the labels that the
registry tells are those to pull, and it is known in whose name. -/
theorem exists_isPull_iff_of_run {server : Server} {w : World} {labels : Labels}
    (hkind : kind ∈ ImageKind.toolchain)
    (hsearch : Engine.toldIds
      (server (w.requests ++ [searchRequest e user pr expected kind])) = .ok [])
    (hlabels : (((Registry.ofEndpoints s.endpoints).labels (kind.repository user) s.cpuArch).run
      server { w with requests := w.requests ++ [searchRequest e user pr expected kind] }).1 =
        .ok labels) :
    (∃ x ∈ (makeReady e s env root user pr expected kind).exchanges server w,
        x.request.isPull = true) ↔
      Toolchain.plan expected false (some labels) false = .ok .pull ∧ ∃ sender,
        (credentials s env).find w.tree env.here
          (Engine.tagged (kind.repository user) s.cpuArch) = .ok sender := by
  obtain ⟨p, r, hp, rfl, hes, hanswer⟩ :=
    exists_conducted_of_run e s env root user pr expected hkind server w
  have hfound : Engine.toldIds p.search = .ok [] := by rw [hanswer, hsearch]
  have hlookup : Lookup s (p.kind.repository user) w.tree [] p.lookup (some labels) := by
    obtain ⟨_, _, hlookup, -⟩ := hp.exists_settled hfound
    cases hlookup with
    | @made _ published hasked hyields =>
      -- The registry is asked right after the search, so it answers as it does in that run.
      have hanswers : ∀ before x after, p.lookup = before ++ x :: after →
          x.answer = server (w.requests ++ [searchRequest e user pr expected p.kind] ++
            before.map (·.request) ++ [x.request]) := by
        intro before x after hsplit
        have hsplit' : (makeReady e s env root user pr expected p.kind).exchanges server w =
            (⟨searchRequest e user pr expected p.kind, p.search⟩ :: before) ++
              x :: (after ++ (p.transfer ++ p.finish)) := by
          rw [hes, Preparation.exchanges, hsplit, List.append_assoc]
          rfl
        simpa using answer_of_exchanges_eq hsplit'
      obtain ⟨-, hpublished⟩ := hyields.eq_run (w := { w with
        requests := w.requests ++ [searchRequest e user pr expected p.kind] }) hanswers
      obtain rfl : published = .ok labels := hpublished.trans hlabels
      exact .made hasked hyields
  have hfirst : p.FirstPlan s user expected w.tree
      (Toolchain.plan expected false (some labels) false) := .intro hfound hlookup
  rw [hes, hp.pulls_iff]
  exact and_congr_left fun _ => ⟨fun h => hfirst.unique h, fun h => h ▸ hfirst⟩

/-! ## Both searches -/

/-- **One criterion for both searches.**  Labels agree with a provenance if and only if they satisfy
all of its filters, as an engine takes them.

So where an engine tells what its filters select, a toolchain image is used if and only if one held
under its name has labels for which the registry's image would be the one to pull.  And where what
is held under that name has some labels, it is used if and only if a run that finds nothing, is told
these labels by the registry and finds out in whose name to pull does pull. -/
theorem search_agrees_with_registry (engine : EngineFilters) (expected : Toolchain.Provenance) :
    (∀ labels, expected.agreesWith labels = true ↔
      ∀ filter ∈ expected.labelFilters, engine.satisfies labels filter) ∧
    ∀ (e : EngineEndpoint) (s : Settings) (env : Environment) (root user pr : String),
      ∀ kind ∈ ImageKind.toolchain, ∀ (held : List HeldImage) (here : Server) (w : World),
      let search := searchRequest e user pr expected kind
      let ready := makeReady e s env root user pr expected kind
      engine.Tells held (Preparation.query user pr expected kind) (here (w.requests ++ [search])) →
      (Reuses e user pr expected kind (ready.exchanges here w) ↔
        ∃ image ∈ held, engine.Named image (kind.reference user pr) ∧
          Toolchain.plan expected false (some image.labels) false = .ok .pull) ∧
      ∀ labels, engine.HoldsWith held (kind.reference user pr) labels →
        ∀ (there : Server) (w' : World),
        Engine.toldIds (there (w'.requests ++ [search])) = .ok [] →
        (((Registry.ofEndpoints s.endpoints).labels (kind.repository user) s.cpuArch).run there
          { w' with requests := w'.requests ++ [search] }).1 = .ok labels →
        (∃ sender, (credentials s env).find w'.tree env.here
          (Engine.tagged (kind.repository user) s.cpuArch) = .ok sender) →
        (Reuses e user pr expected kind (ready.exchanges here w) ↔
          ∃ x ∈ ready.exchanges there w', x.request.isPull = true) := by
  refine ⟨engine.agreesWith_iff expected, ?_⟩
  intro e s env root user pr kind hkind held here w search ready htells
  have hreuses : Reuses e user pr expected kind (ready.exchanges here w) ↔
      ∃ image ∈ held, engine.Named image (kind.reference user pr) ∧
        Toolchain.plan expected false (some image.labels) false = .ok .pull := by
    obtain ⟨p, r, hp, rfl, hes, hanswer⟩ :=
      exists_conducted_of_run e s env root user pr expected hkind here w
    rw [hes, hp.reuses_iff, hanswer, htells.exists_cons_iff]
    simp only [Toolchain.plan_eq_pull_iff]
  refine ⟨hreuses, fun labels hholds there w' hsearch hlabels hsender => ?_⟩
  rw [hreuses, exists_isPull_iff_of_run hkind hsearch hlabels, and_iff_left hsender]
  exact hholds.exists_named_iff (P := fun labels =>
    Toolchain.plan expected false (some labels) false = .ok .pull)

/-! A commit that holds `=` and a recipe without a text, which one engine has an image of and
another finds in the registry. -/

namespace Divided

/-- A filter without `=` asks for a label of that name. -/
def satisfies (labels : Labels) (filter : String) : Prop :=
  match Text.cut '=' filter with
  | some (key, value) => labels.get? key = some value
  | none => labels.get? filter ≠ none

/-- An engine that filters by labels and by names. -/
def filters : EngineFilters where
  admits image name values :=
    if name = "label" then ∀ filter ∈ values, satisfies image.labels filter
    else if name = "reference" then ∃ reference ∈ values, reference ∈ image.names
    else False
  satisfies := satisfies
  admits_label image values := by rw [if_pos rfl]
  satisfies_iff labels filter key value hcut := by rw [satisfies, hcut]

def needed : Toolchain.Provenance := ⟨"=a=b", "", ""⟩

def labels : Labels :=
  Labels.ofList [("llvm_project_sha1", "=a=b"), ("llvm_project_dockerfile_sha1", "")]

def image : HeldImage := ⟨"a", ["user/onnx-mlir-llvm-static:7"], labels⟩

/-- What the registry has in the history of its image. -/
def history : Json := .object [("config", .object [("Labels", labels.toJson)])]

/-- An engine without images, and a registry that tells the labels. -/
def elsewhere : Server := fun requests =>
  match requests.getLast? with
  | some (.engine _ (.listImages _)) => .reply ⟨200, none, .text "[]"⟩
  | some (.engine _ _) => .reply ⟨200, none, .stream [] true⟩
  | some (.web _) => .reply ⟨200, none, .text (if requests.length = 2
      then Registry.OneText.tokens.render
      else (Registry.OneText.manifest history.render).render)⟩
  | none => .unreachable

def endpoint : EngineEndpoint := .http "http://localhost:2375"

/-- The search in all runs from the start. -/
def search : Request := searchRequest endpoint "user" "7" needed .static

theorem named : filters.Named image "user/onnx-mlir-llvm-static:7" :=
  ⟨_, List.mem_singleton_self _, List.mem_singleton_self _⟩

theorem agreesWith_labels : needed.agreesWith labels = true := by decide +kernel

theorem tells : filters.Tells [image] (Preparation.query "user" "7" needed .static)
    (Stages.engine [search]) := by
  refine ⟨["a"], eq_ok_of_toOption (by decide +kernel), fun id => ?_⟩
  have hselects : filters.Selects (Preparation.query "user" "7" needed .static) image :=
    EngineFilters.selects_query_iff.2 ⟨named, agreesWith_labels⟩
  constructor
  · intro hid
    exact ⟨image, List.mem_singleton_self _, hselects, (List.mem_singleton.1 hid).symm⟩
  · rintro ⟨other, hother, -, rfl⟩
    obtain rfl := List.mem_singleton.1 hother
    exact List.mem_singleton_self _

theorem holdsWith : filters.HoldsWith [image] "user/onnx-mlir-llvm-static:7" labels := by
  refine ⟨⟨image, List.mem_singleton_self _, named⟩, ?_⟩
  intro other hother _
  obtain rfl := List.mem_singleton.1 hother
  rfl

theorem toldIds_elsewhere : Engine.toldIds (elsewhere [search]) = .ok [] :=
  eq_ok_of_toOption (by decide +kernel)

theorem exists_answers : ∃ q m, (Registry.ofEndpoints {}).Answers "user/onnx-mlir-llvm-static"
    Settings.hostArch elsewhere { Stages.world with requests := [search] } q m "abc"
      [history.render] := by
  have hrequests : ((Registry.ofEndpoints {}).tokenRequest
        "user/onnx-mlir-llvm-static").toOption.isSome ∧
      ((Registry.ofEndpoints {}).manifestRequest "user/onnx-mlir-llvm-static" Settings.hostArch
        "abc").toOption.isSome := by decide +kernel
  obtain ⟨q, hq⟩ := Option.isSome_iff_exists.1 hrequests.1
  obtain ⟨m, hm⟩ := Option.isSome_iff_exists.1 hrequests.2
  exact ⟨q, m, {
    tokenRequest := eq_ok_of_toOption hq
    tokenServed := ⟨_, ⟨_, rfl, rfl, Json.parse?_eq_some_iff.1 (Json.parse?_render rfl)⟩,
      .member (Json.onlyMember_singleton _ _)⟩
    isHeaderValue := by decide
    manifestRequest := eq_ok_of_toOption hm
    manifestServed := ⟨_, ⟨_, rfl, rfl, Json.parse?_eq_some_iff.1 (Json.parse?_render rfl)⟩,
      Registry.OneText.hasHistory_manifest history.render⟩ }⟩

theorem run_labels :
    (((Registry.ofEndpoints Stages.settings.endpoints).labels "user/onnx-mlir-llvm-static"
      Stages.settings.cpuArch).run elsewhere { Stages.world with requests := [search] }).1 =
        .ok labels := by
  obtain ⟨q, m, hanswers⟩ := exists_answers
  have hlabels : Registry.HasLabels history labels :=
    .value (.member (Json.onlyMember_singleton _ _))
      (.value (.member (Json.onlyMember_singleton _ _)) (Labels.inMap_toJson labels))
  have htext : Json.IsText history history.render.toList :=
    Json.parse?_eq_some_iff.1 (Json.parse?_render rfl)
  have hrun := Registry.run_labels_of_answers hanswers
  rw [(Registry.labelsOf_cons _ _ _).1 history labels htext hlabels] at hrun
  exact congrArg Prod.fst hrun

theorem exists_sender : ∃ sender,
    (credentials Stages.settings Stages.environment).find Stages.world.tree
      Stages.environment.here (Engine.tagged "user/onnx-mlir-llvm-static"
        Stages.settings.cpuArch) = .ok sender :=
  ⟨none, eq_ok_of_toOption (by decide +kernel)⟩

end Divided

open Divided in
/-- The image is used by the one engine and pulled by the other. -/
theorem search_agrees_with_registry_divided :
    Reuses endpoint "user" "7" needed .static
      ((makeReady endpoint Stages.settings Stages.environment "/" "user" "7" needed
        .static).exchanges Stages.engine Stages.world) ∧
    ∃ x ∈ (makeReady endpoint Stages.settings Stages.environment "/" "user" "7" needed
        .static).exchanges elsewhere Stages.world, x.request.isPull = true := by
  obtain ⟨-, hsearch⟩ := search_agrees_with_registry filters needed
  obtain ⟨hreuses, hpulls⟩ := hsearch endpoint Stages.settings Stages.environment "/" "user" "7"
    .static (by decide) [image] Stages.engine Stages.world tells
  have hplan := Toolchain.plan_eq_pull_iff.2 agreesWith_labels
  have hused := hreuses.2 ⟨image, List.mem_singleton_self _, named, hplan⟩
  exact ⟨hused,
    (hpulls labels holdsWith elsewhere Stages.world toldIds_elsewhere run_labels exists_sender).1
      hused⟩

end Command

end ImagePipeline
