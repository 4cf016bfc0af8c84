import ImagePipeline.Command.Cleanup
import ImagePipeline.Proofs.CommandTranscript
import ImagePipeline.Proofs.ImageRemoval

/-!
# Whose containers a cleanup removes

After a build the images of a pull request are found by their label, and go with the containers that
come from them.  A full cleanup takes the toolchain references of the pull request for images, too.
An image with such a reference may have been built for another pull request, and a container may
come from it without coming from any image with the label.

* `Found`, `ListedFor`: what a transcript shows to belong to the pull request.
* `CleanupLog`: the transcripts of a cleanup after a build.
* `cleanup_containers`: the containers that go come from images with the label or with a toolchain
  reference.  They all come from images with the label if and only if no toolchain reference has
  containers of its own.
-/

namespace ImagePipeline.Command

open Engine
open Files (Tree)
open Program

variable {s : Settings} {env : Environment} {t t' : Tree} {es before after : List Exchange}
  {e : EngineEndpoint} {pr image id : String} {x : Exchange}

/-- An image that the engine has returned for the label of a pull request. -/
def Found (pr : String) (es : List Exchange) (image : String) : Prop :=
  ∃ e query answer ids, ⟨.engine e (.listImages query), answer⟩ ∈ es ∧
    query.labels = [prLabelFilter pr] ∧ toldIds answer = .ok ids ∧ image ∈ ids

/-- A container that the engine has listed among those that come from an image. -/
def ListedFor (image : String) (es : List Exchange) (id : String) : Prop :=
  ∃ e answer, ⟨.engine e (.listContainers image), answer⟩ ∈ es ∧ id ∈ listedContainers answer

/-- Every container is removed as one that comes from an image of the pull request. -/
def RemovesOwn (pr : String) (es : List Exchange) : Prop :=
  ∀ before e id answer after, es = before ++ ⟨.engine e (.removeContainer id), answer⟩ :: after →
    ∃ image, Found pr before image ∧ ListedFor image before id

theorem Found.mono (h : Found pr before image) (hes : before ⊆ es) : Found pr es image := by
  obtain ⟨e, query, answer, ids, hmem, h⟩ := h
  exact ⟨e, query, answer, ids, hes hmem, h⟩

theorem ListedFor.mono (h : ListedFor image before id) (hes : before ⊆ es) :
    ListedFor image es id := by
  obtain ⟨e, answer, hmem, hid⟩ := h
  exact ⟨e, answer, hes hmem, hid⟩

/-- A reference that only a full cleanup adds. -/
def AddedReference (s : Settings) (pr image : String) : Prop :=
  CleanupScope.afterBuild s.build.outcome (action s) s.pr.merged = .full ∧
    ∃ user, s.dockerhubUser = some user ∧ image ∈ toolchainReferences user pr

/-- The query for the images of a pull request after a build. -/
def cleanupQuery (s : Settings) (pr : String) : ImageQuery :=
  { ImageQuery.ofLabel (prLabelFilter pr) with
    dangling :=
      (CleanupScope.afterBuild s.build.outcome (action s) s.pr.merged).danglingOnly }

/-- The transcripts of a cleanup after a build. -/
inductive CleanupLog (s : Settings) : List Exchange → Prop where
  /-- It ends before anything is sent. -/
  | quiet : CleanupLog s []
  /-- The images are asked for.  Those that the engine returns are removed, and with a full cleanup
  the toolchain references. -/
  | asked {pr : String} {e : EngineEndpoint} {answer : Answer} {rounds : List Removal}
      (hpr : s.pr.number = some pr)
      (hrounds : ∀ round ∈ rounds, (∃ ids, toldIds answer = .ok ids ∧ round.image ∈ ids) ∨
        AddedReference s pr round.image) :
    CleanupLog s (⟨.engine e (.listImages (cleanupQuery s pr)), answer⟩ ::
      rounds.flatMap (·.exchanges e))

theorem require_eq_ok {α : Type} {name : String} {value : Option α} {a : α}
    (h : Settings.require name value = .ok a) : value = some a := by
  cases value with
  | none => cases h
  | some b =>
    cases h
    rfl

theorem removals_of_yields_removeAll {images : List String} {text : CleanupReport → String}
    {r : Except Failure Unit}
    (h : (onImages (removeAll e .ignore images) >>= fun report =>
      writeLine (text report)).Yields t es t' r) :
    ∃ rounds : List Removal, rounds.map (·.image) = images ∧
      es = rounds.flatMap (·.exchanges e) := by
  have hdone {es : List Exchange} {t' : Tree} {r : Except Failure CleanupReport}
      (h : (onImages (removeAll e .ignore images)).Yields t es t' r) :
      ∃ rounds : List Removal, rounds.map (·.image) = images ∧
        es = rounds.flatMap (·.exchanges e) := by
    obtain ⟨r₀, h₀, -⟩ := yields_mapError.1 h
    obtain ⟨-, rounds, himages, hrounds⟩ := conducted_of_yields_removeImages h₀
    exact ⟨rounds, himages, hrounds.of_ignore.1⟩
  rcases yields_bind.1 h with ⟨failure, h₁, -⟩ | ⟨report, es₁, t₁, es₂, h₁, h₂, rfl⟩
  · exact hdone h₁
  · obtain ⟨rfl, -, -⟩ := yields_writeLine.1 h₂
    rw [List.append_nil]
    exact hdone h₁

theorem cleanupLog_of_yields {r : Except Failure Unit} (h : (cleanup s env).Yields t es t' r) :
    CleanupLog s es := by
  unfold cleanup at h
  rcases setting_of_yields h with ⟨failure, rfl, rfl, rfl⟩ | ⟨pr, hpr, h₁⟩
  · exact .quiet
  replace hpr := require_eq_ok hpr
  dsimp only at h₁
  split at h₁
  next =>
    obtain ⟨rfl, -, -⟩ := yields_writeLine.1 h₁
    exact .quiet
  rcases connect_of_yields h₁ with ⟨failure, rfl, rfl, rfl⟩ | ⟨e, -, h₂⟩
  · exact .quiet
  rw [onImages, prImages, find_eq, ask_mapError] at h₂
  obtain ⟨answer, rest, rfl, hrest⟩ := yields_ask_bind.1 h₂
  have hsearched : CleanupLog s [⟨.engine e (.listImages (cleanupQuery s pr)), answer⟩] :=
    @CleanupLog.asked s pr e answer [] hpr fun round hround => absurd hround List.not_mem_nil
  rcases hrest with ⟨failure, -, rfl, rfl, rfl⟩ | ⟨ids, hids, h₃⟩
  · exact hsearched
  have htold : toldIds answer = .ok ids := by
    cases htold : toldIds answer with
    | error error =>
      rw [htold] at hids
      cases hids
    | ok ids' =>
      rw [htold] at hids
      cases hids
      rfl
  have hasked {further : List String} {rounds : List Removal}
      (himages : rounds.map (·.image) = ids ++ further)
      (hfurther : ∀ image ∈ further, AddedReference s pr image) :
      CleanupLog s (⟨.engine e (.listImages (cleanupQuery s pr)), answer⟩ ::
        rounds.flatMap (·.exchanges e)) := by
    refine .asked hpr fun round hround => ?_
    have himage : round.image ∈ ids ++ further := himages ▸ List.mem_map_of_mem hround
    rcases List.mem_append.1 himage with hid | hreference
    · exact .inl ⟨ids, htold, hid⟩
    · exact .inr (hfurther _ hreference)
  split at h₃
  next hfull =>
    rcases setting_of_yields h₃ with ⟨failure, -, rfl, -⟩ | ⟨user, huser, h₄⟩
    · exact hsearched
    · obtain ⟨rounds, himages, rfl⟩ := removals_of_yields_removeAll h₄
      exact hasked himages fun image himage => ⟨hfull, user, require_eq_ok huser, himage⟩
  next =>
    obtain ⟨rounds, himages, rfl⟩ := removals_of_yields_removeAll h₃
    exact hasked himages fun image himage => absurd himage List.not_mem_nil

/-! ## What is exchanged for an image -/

theorem mem_exchanges_iff {round : Removal} : x ∈ round.exchanges e ↔
    x = round.listingExchange e ∨
      (∃ container ∈ round.containers, x = containerExchange e container) ∨
      x = imageExchange e round.image round.last := by
  simp only [Removal.exchanges, List.mem_cons, List.mem_append, List.mem_map, List.not_mem_nil,
    or_false, eq_comm]

/-- Of what is exchanged for an image nothing is found. -/
theorem found_append {round : Removal} (hes : ∀ x ∈ es, x ∈ round.exchanges e)
    (h : Found pr (before ++ es) image) : Found pr before image := by
  obtain ⟨e', query, answer, ids, hmem, h⟩ := h
  rcases List.mem_append.1 hmem with hbefore | hx
  · exact ⟨e', query, answer, ids, hbefore, h⟩
  · rcases mem_exchanges_iff.1 (hes _ hx) with h | ⟨container, -, h⟩ | h <;> cases h

/-- What is listed there comes from that image. -/
theorem listedFor_append {round : Removal} (hes : ∀ x ∈ es, x ∈ round.exchanges e)
    (h : ListedFor image (before ++ es) id) : ListedFor image before id ∨ image = round.image := by
  obtain ⟨e', answer, hmem, hid⟩ := h
  rcases List.mem_append.1 hmem with hbefore | hx
  · exact .inl ⟨e', answer, hbefore, hid⟩
  · rcases mem_exchanges_iff.1 (hes _ hx) with h | ⟨container, -, h⟩ | h <;> cases h
    exact .inr rfl

/-- A container is removed after it has been listed. -/
theorem listed_of_eq {round : Removal} {e' : EngineEndpoint} {answer : Answer}
    (h : round.exchanges e = before ++ ⟨.engine e' (.removeContainer id), answer⟩ :: after) :
    ∃ rest, before = round.listingExchange e :: rest ∧ id ∈ listedContainers round.listing := by
  have hmem : (⟨.engine e' (.removeContainer id), answer⟩ : Exchange) ∈ round.exchanges e := by
    rw [h]
    exact List.mem_append_right _ List.mem_cons_self
  have hid : id ∈ listedContainers round.listing := by
    rcases mem_exchanges_iff.1 hmem with h | ⟨container, hcontainer, h⟩ | h <;> cases h
    rw [← round.named]
    exact List.mem_map_of_mem hcontainer
  cases before with
  | nil => cases (List.cons.inj h).1
  | cons y ys =>
    obtain ⟨rfl, -⟩ := List.cons.inj h
    exact ⟨ys, rfl, hid⟩

/-- Every container that is listed is removed. -/
theorem exists_removal_of_listed {round : Removal} (hid : id ∈ listedContainers round.listing) :
    ∃ first answer rest, round.exchanges e =
      first ++ ⟨.engine e (.removeContainer id), answer⟩ :: rest := by
  rw [← round.named] at hid
  obtain ⟨⟨id, answer⟩, hcontainer, rfl⟩ := List.mem_map.1 hid
  exact (List.append_of_mem (mem_exchanges_iff.2 (.inr (.inl ⟨_, hcontainer, rfl⟩)))).imp
    fun first ⟨rest, h⟩ => ⟨answer, rest, h⟩

/-- Every exchange after the images have been asked for is one for an image that has been found or
for a reference that has been added. -/
theorem exists_round_of_eq (hpr : s.pr.number = some pr) (hlog : CleanupLog s es)
    (h : es = before ++ x :: after) (hx : ∀ e query, x.request ≠ .engine e (.listImages query)) :
    ∃ (e : EngineEndpoint) (round : Removal) (earlier first rest later : List Exchange),
      es = earlier ++ round.exchanges e ++ later ∧ before = earlier ++ first ∧
        round.exchanges e = first ++ x :: rest ∧
        (Found pr earlier round.image ∨ AddedReference s pr round.image) := by
  cases hlog with
  | quiet => exact absurd h.symm (List.append_ne_nil_of_right_ne_nil _ (List.cons_ne_nil _ _))
  | @asked pr' e answer rounds hpr' hrounds =>
    cases hpr.symm.trans hpr'
    cases before with
    | nil => exact absurd (congrArg Exchange.request (List.cons.inj h).1.symm) (hx _ _)
    | cons y ys =>
      obtain ⟨rfl, htail⟩ := List.cons.inj h
      obtain ⟨earlier, round, later, first, rest, rfl, rfl, hround, -⟩ :=
        exists_round_of_flatMap_eq htail
      refine ⟨e, round, _ :: earlier.flatMap (·.exchanges e), first, rest,
        later.flatMap (·.exchanges e), by simp, rfl, hround, ?_⟩
      refine (hrounds round (by simp)).imp_left ?_
      rintro ⟨ids, hids, himage⟩
      exact ⟨e, _, answer, ids, List.mem_cons_self, rfl, hids, himage⟩

/-! ## Whose containers go -/

/-- **Whose containers a cleanup removes.**  A container goes as one that comes from an image of the
pull request, or from a toolchain reference that a full cleanup adds; images and references are all
that is removed besides.  All containers are those of images of the pull request if the cleanup is
not full, and otherwise if and only if a reference that is none of these images has no containers
but theirs. -/
theorem cleanup_containers (hpr : s.pr.number = some pr) (server : Server) (w : World) :
    let es := (cleanup s env).exchanges server w
    (∀ before e id answer after,
      es = before ++ ⟨.engine e (.removeContainer id), answer⟩ :: after →
        ∃ image, (Found pr before image ∨ AddedReference s pr image) ∧
          ListedFor image before id) ∧
    (∀ before e image answer after,
      es = before ++ ⟨.engine e (.removeImage image), answer⟩ :: after →
        Found pr before image ∨ AddedReference s pr image) ∧
    (CleanupScope.afterBuild s.build.outcome (action s) s.pr.merged ≠ .full →
      RemovesOwn pr es) ∧
    (RemovesOwn pr es ↔ ∀ before e image answer after,
      es = before ++ ⟨.engine e (.listContainers image), answer⟩ :: after →
        ¬ Found pr before image → ∀ id ∈ listedContainers answer,
          ∃ image', Found pr before image' ∧ ListedFor image' before id) := by
  intro es
  have hlog : CleanupLog s es := cleanupLog_of_yields (yields_run server w (cleanup s env))
  clear_value es
  have hcontainers : ∀ before e id answer after,
      es = before ++ ⟨.engine e (.removeContainer id), answer⟩ :: after →
        ∃ image, (Found pr before image ∨ AddedReference s pr image) ∧
          ListedFor image before id := by
    intro before e id answer after hes
    obtain ⟨e, round, earlier, first, rest, later, -, rfl, hround, hsource⟩ :=
      exists_round_of_eq hpr hlog hes nofun
    obtain ⟨first, rfl, hid⟩ := listed_of_eq hround
    refine ⟨round.image, hsource.imp_left (·.mono (List.subset_append_left _ _)), e, round.listing,
      ?_, hid⟩
    exact List.mem_append_right _ List.mem_cons_self
  refine ⟨hcontainers, fun before e image answer after hes => ?_,
    fun hscope before e id answer after hes => ?_,
    fun hown before e image answer after hes hfound id hid => ?_,
    fun hlisted before e id answer after hes => ?_⟩
  · obtain ⟨e, round, earlier, first, rest, later, -, rfl, hround, hsource⟩ :=
      exists_round_of_eq hpr hlog hes nofun
    have hx := mem_exchanges_iff.1 (hround ▸ List.mem_append_right first List.mem_cons_self)
    rcases hx with h | ⟨container, -, h⟩ | h <;> cases h
    exact hsource.imp_left (·.mono (List.subset_append_left _ _))
  · obtain ⟨image, hsource, hlisted⟩ := hcontainers before e id answer after hes
    exact ⟨image, hsource.resolve_right fun hadded => hscope hadded.1, hlisted⟩
  · obtain ⟨e, round, earlier, first, rest, later, hall, rfl, hround, -⟩ :=
      exists_round_of_eq hpr hlog hes nofun
    have hx := mem_exchanges_iff.1 (hround ▸ List.mem_append_right first List.mem_cons_self)
    rcases hx with h | ⟨container, -, h⟩ | h <;> cases h
    obtain ⟨first', answer, rest', hremoval⟩ := exists_removal_of_listed (e := e) hid
    -- The container goes, so it has been listed before for an image that was found, but not here.
    obtain ⟨image', hfound', hlisted'⟩ := hown (earlier ++ first') _ _ _ (rest' ++ later) (by
      rw [hall, hremoval, ← List.append_assoc, List.append_assoc]
      rfl)
    have hfirst : ∀ x ∈ first', x ∈ round.exchanges e := by
      rw [hremoval]
      exact fun x hx => List.mem_append_left _ hx
    replace hfound' := (found_append hfirst hfound').mono (List.subset_append_left earlier first)
    rcases listedFor_append hfirst hlisted' with hlisted' | rfl
    · exact ⟨image', hfound', hlisted'.mono (List.subset_append_left _ _)⟩
    · exact absurd hfound' hfound
  · obtain ⟨e, round, earlier, first, rest, later, hall, rfl, hround, -⟩ :=
      exists_round_of_eq hpr hlog hes nofun
    obtain ⟨first, rfl, hid⟩ := listed_of_eq hround
    by_cases hfound : Found pr earlier round.image
    · exact ⟨round.image, hfound.mono (List.subset_append_left _ _), e, round.listing,
        List.mem_append_right _ List.mem_cons_self, hid⟩
    · obtain ⟨image', hfound', hlisted'⟩ := hlisted earlier e round.image round.listing _
        (hall.trans (List.append_assoc _ _ _)) hfound id hid
      exact ⟨image', hfound'.mono (List.subset_append_left _ _),
        hlisted'.mono (List.subset_append_left _ _)⟩

/-! A full cleanup for the pull request 7, whose toolchain reference is a name of an image of
another pull request. -/

namespace Shared

/-- The settings of the cleanup after a push. -/
def settings : Settings where
  dockerSocket := some "tcp://localhost:2375"
  cpuArch := Settings.hostArch
  dockerhubUser := some "user"
  dockerhubToken := none
  githubToken := none
  build := ⟨none, none, none, none, .success⟩
  pr := ⟨some "7", some .push, false, .push, none⟩
  endpoints := {}

def environment : Environment := ⟨"/", fun _ => none⟩

/-- An engine without images of the pull request, where a container comes from every reference. -/
def server : Server := fun requests =>
  match requests.getLast? with
  | some (.engine _ (.listContainers _)) => .reply ⟨200, none, .text "[\x7b\"Id\": \"c\"\x7d]"⟩
  | _ => .reply ⟨200, none, .text "[]"⟩

def world : World := ⟨[], "", .empty⟩

/-- Whether a request removes the container. -/
def removes : Request → Bool
  | .engine _ (.removeContainer id) => id = "c"
  | _ => false

theorem run_removes :
    ((cleanup settings environment).run server world).2.requests.any removes = true := by
  decide +kernel

theorem exists_removal : ∃ before e answer after,
    (cleanup settings environment).exchanges server world =
      before ++ ⟨.engine e (.removeContainer "c"), answer⟩ :: after := by
  obtain ⟨before, q, answer, after, hes, hremoves⟩ := exists_exchange_of_any rfl run_removes
  rcases q with _ | ⟨e, _ | _⟩ <;> try cases hremoves
  obtain rfl := of_decide_eq_true hremoves
  exact ⟨before, e, answer, after, hes⟩

theorem toldIds_none : toldIds (.reply ⟨200, none, .text "[]"⟩) = .ok [] :=
  eq_ok_of_toOption (by decide +kernel)

/-- No image is found for the pull request. -/
theorem not_found {before after : List Exchange} {x : Exchange} {image : String}
    (h : (cleanup settings environment).exchanges server world = before ++ x :: after) :
    ¬ Found "7" before image := by
  rintro ⟨e, query, answer, ids, hmem, -, hids, himage⟩
  obtain ⟨first, rest, rfl⟩ := List.append_of_mem hmem
  rw [List.append_assoc] at h
  have hanswer : answer = .reply ⟨200, none, .text "[]"⟩ := by
    refine (answer_of_exchanges_eq h).trans ?_
    rw [server, List.getLast?_concat]
  rw [hanswer, toldIds_none] at hids
  cases hids
  cases himage

end Shared

/-- The container that is removed in this cleanup comes from a toolchain reference. -/
theorem cleanup_containers_shared : ∃ before e answer after image,
    (cleanup Shared.settings Shared.environment).exchanges Shared.server Shared.world =
        before ++ ⟨.engine e (.removeContainer "c"), answer⟩ :: after ∧
      image ∈ toolchainReferences "user" "7" ∧ ListedFor image before "c" := by
  obtain ⟨before, e, answer, after, hes⟩ := Shared.exists_removal
  obtain ⟨hcontainers, -⟩ :=
    @cleanup_containers Shared.settings Shared.environment "7" rfl Shared.server Shared.world
  obtain ⟨image, hfound | ⟨-, user, huser, himage⟩, hlisted⟩ := hcontainers _ _ _ _ _ hes
  · exact absurd hfound (Shared.not_found hes)
  · cases huser
    exact ⟨before, e, answer, after, image, hes, himage, hlisted⟩

/-- So a cleanup does not keep to the containers of its pull request. -/
theorem cleanup_not_removesOwn :
    ¬ ∀ (s : Settings) (env : Environment) (server : Server) (w : World) (pr : String),
      s.pr.number = some pr → RemovesOwn pr ((cleanup s env).exchanges server w) := by
  intro hown
  obtain ⟨before, e, answer, after, hes⟩ := Shared.exists_removal
  obtain ⟨image, hfound, -⟩ := hown Shared.settings Shared.environment Shared.server Shared.world
    "7" rfl before e "c" answer after hes
  exact Shared.not_found hes hfound

end ImagePipeline.Command
