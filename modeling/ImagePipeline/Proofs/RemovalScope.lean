import ImagePipeline.Proofs.PrepareTranscript
import ImagePipeline.Proofs.SettingsSource

/-!
# Which variables let a cleanup remove what

Images without a tag are waste at any time.  One with a tag may hold the layers of the next build,
or what has to be looked at after a failure, and is removed only if its pull request is finished.
That is decided by the texts of some variables, and what is decided by the filters of one query:
the engine tells which images those are, and no image goes that it has not told.

* `Finished`: what the variables of a finished pull request say after a build; before one it is
  enough that the action reads `closed`.
* `AsksFor`, `Returned`: the query for the images of a pull request, and an image it has returned.
* `removes_by_scope`: what goes by what the variables say; nothing after a failed build, and no
  workspace after a removal that fails.
-/

namespace ImagePipeline.Command

open Engine
open Files (Tree)
open Program
open Settings (From readFlag?)
open Variable (given Reads)

variable {lookup : String → Option String} {s : Settings} {env : Environment} {t t' : Tree}
  {es before after : List Exchange} {pr image : String} {r : Except Failure Unit}

/-! ## The scopes by the variables -/

/-- The variables of a finished pull request after a build: the build has come to an end that is no
failure, and the event is a push, or the end of a pull request that is not merged. -/
structure Finished (lookup : String → Option String) : Prop where
  decided : ∃ value, lookup Variable.buildResult = some value ∧
    BuildOutcome.read value ≠ .failure ∧ BuildOutcome.read value ≠ .unknown
  ended : Reads lookup Variable.prAction "push" ∨ Reads lookup Variable.prAction "closed" ∧
    ¬ ∃ value, lookup Variable.prMerged = some value ∧ readFlag? value = some true

/-- The variables say that the build has failed. -/
def Failed (lookup : String → Option String) : Prop :=
  ∃ value, lookup Variable.buildResult = some value ∧ BuildOutcome.read value = .failure

section Scopes

variable (h : From lookup s)

include h

theorem closed_iff : action s = .closed ↔ Reads lookup Variable.prAction "closed" :=
  h.action_eq_iff (a := .closed) (by decide)

theorem failed_iff : s.build.outcome = .failure ↔ Failed lookup :=
  h.outcome_eq_iff (by decide)

theorem danglingOnly_beforeBuild_iff :
    (CleanupScope.beforeBuild (action s)).danglingOnly = true ↔
      ¬ Reads lookup Variable.prAction "closed" := by
  rw [← closed_iff h, CleanupScope.beforeBuild]
  split
  next hclosed => exact iff_of_false nofun fun hopen => hopen hclosed
  next hopen => exact iff_of_true rfl hopen

theorem decided_iff : (s.build.outcome ≠ .failure ∧ s.build.outcome ≠ .unknown) ↔
    ∃ value, lookup Variable.buildResult = some value ∧
      BuildOutcome.read value ≠ .failure ∧ BuildOutcome.read value ≠ .unknown := by
  constructor
  · rintro ⟨hfailure, hunknown⟩
    obtain ⟨value, hvalue, hread⟩ := (h.outcome_eq_iff hunknown).1 rfl
    exact ⟨value, hvalue, hread ▸ hfailure, hread ▸ hunknown⟩
  · rintro ⟨value, hvalue, hfailure, hunknown⟩
    rw [(h.outcome_eq_iff hunknown).2 ⟨value, hvalue, rfl⟩]
    exact ⟨hfailure, hunknown⟩

/-- A cleanup after a build is full if the pull request is finished. -/
theorem afterBuild_eq_full_iff :
    CleanupScope.afterBuild s.build.outcome (action s) s.pr.merged = .full ↔ Finished lookup := by
  have hpush : action s = .push ↔ Reads lookup Variable.prAction "push" :=
    h.action_eq_iff (a := .push) (by decide)
  have hfinished : Finished lookup ↔ (s.build.outcome ≠ .failure ∧ s.build.outcome ≠ .unknown) ∧
      (action s = .push ∨ action s = .closed ∧ ¬ s.pr.merged = true) := by
    rw [decided_iff h, hpush, closed_iff h, h.merged_iff]
    exact ⟨fun hf => ⟨hf.decided, hf.ended⟩, fun hf => ⟨hf.1, hf.2⟩⟩
  rw [hfinished, CleanupScope.afterBuild]
  split
  next hfailure => exact iff_of_false nofun fun hf => hf.1.1 hfailure
  next hfailure =>
    split
    next hfull =>
      refine iff_of_true rfl ⟨⟨hfailure, hfull.1⟩, ?_⟩
      simpa [or_comm] using hfull.2
    next hfull =>
      refine iff_of_false nofun fun hf => hfull ⟨hf.1.2, ?_⟩
      simpa [or_comm] using hf.2

end Scopes

/-! ## The query by the variables -/

/-- The query for the images of a pull request: for those without a tag only, unless the pull
request is finished. -/
structure AsksFor (pr : String) (finished : Prop) (query : ImageQuery) : Prop where
  labelled : ("label", ["onnx_mlir_pr_number=" ++ pr]) ∈ query.filters
  dangling : ("dangling", ["true"]) ∈ query.filters ↔ ¬ finished

/-- An image that the engine has returned to such a query. -/
def Returned (pr : String) (finished : Prop) (es : List Exchange) (image : String) : Prop :=
  ∃ e query answer ids, ⟨.engine e (.listImages query), answer⟩ ∈ es ∧ AsksFor pr finished query ∧
    toldIds answer = .ok ids ∧ image ∈ ids

theorem asksFor_of_dangling {query : ImageQuery} {finished : Prop}
    (hreference : query.reference = none) (hlabels : query.labels = [prLabelFilter pr])
    (hdangling : query.dangling = true ↔ ¬ finished) : AsksFor pr finished query := by
  have hlabel : prLabelFilter pr = "onnx_mlir_pr_number=" ++ pr := rfl
  have hfilters : query.filters = ("label", ["onnx_mlir_pr_number=" ++ pr]) ::
      if query.dangling then [("dangling", ["true"])] else [] := by
    rw [ImageQuery.filters, hreference, hlabels, hlabel]
    rfl
  refine ⟨hfilters ▸ List.mem_cons_self, Iff.trans ?_ hdangling⟩
  rw [hfilters]
  cases query.dangling <;> simp

theorem asksFor_prepareQuery (h : From lookup s) :
    AsksFor pr (Reads lookup Variable.prAction "closed") (prepareQuery s pr) :=
  asksFor_of_dangling rfl rfl (danglingOnly_beforeBuild_iff h)

/-- After a build that has not failed the scope is one of two. -/
theorem asksFor_cleanupQuery (h : From lookup s) (hfailed : ¬ Failed lookup) :
    AsksFor pr (Finished lookup) (cleanupQuery s pr) := by
  refine asksFor_of_dangling rfl rfl ?_
  rw [← afterBuild_eq_full_iff h]
  show CleanupScope.danglingOnly _ = true ↔ _
  rw [CleanupScope.afterBuild, if_neg (mt (failed_iff h).1 hfailed)]
  split
  · exact iff_of_false nofun fun hfull => hfull rfl
  · exact iff_of_true rfl nofun

/-! ## What goes -/

/-- In a transcript that begins with the query and goes on with removals, an image goes after the
query as the image of one of them. -/
theorem round_of_eq {e e' : EngineEndpoint} {query : ImageQuery} {answer answer' : Answer}
    {made : List Exchange} {rounds : List Removal}
    (hmade : made <+: rounds.flatMap (·.exchanges e))
    (h : ⟨.engine e (.listImages query), answer⟩ :: made =
      before ++ ⟨.engine e' (.removeImage image), answer'⟩ :: after) :
    ⟨.engine e (.listImages query), answer⟩ ∈ before ∧ image ∈ rounds.map (·.image) := by
  cases before with
  | nil => cases (List.cons.inj h).1
  | cons y before =>
    obtain ⟨rfl, hrest⟩ := List.cons.inj h
    refine ⟨List.mem_cons_self, ?_⟩
    have hx : (⟨.engine e' (.removeImage image), answer'⟩ : Exchange) ∈ made :=
      hrest ▸ List.mem_append_right before List.mem_cons_self
    obtain ⟨round, hround, hx⟩ := List.mem_flatMap.1 (hmade.subset hx)
    rcases mem_exchanges_iff.1 hx with h | ⟨container, -, h⟩ | h <;> cases h
    exact List.mem_map_of_mem hround

theorem returned_of_prepareLog (h : From lookup s) (hlog : PrepareLog s env t es t' r)
    {e : EngineEndpoint} {answer : Answer}
    (hes : es = before ++ ⟨.engine e (.removeImage image), answer⟩ :: after) :
    ∃ pr, given lookup Variable.prNumber = some pr ∧
      Returned pr (Reads lookup Variable.prAction "closed") before image := by
  cases hlog with
  | quiet => exact absurd hes.symm (List.append_ne_nil_of_right_ne_nil _ (List.cons_ne_nil _ _))
  | unlisted =>
    rcases List.singleton_eq_append_iff.1 hes with ⟨-, h⟩ | ⟨-, h⟩ <;> cases h
  | stopped hpr hids himages hmade =>
    obtain ⟨hquery, himage⟩ := round_of_eq hmade.made_prefix hes
    exact ⟨_, h.number ▸ hpr, _, _, _, _, hquery, asksFor_prepareQuery h, hids, himages ▸ himage⟩
  | removed hpr hids himages =>
    obtain ⟨hquery, himage⟩ := round_of_eq List.prefix_rfl hes
    exact ⟨_, h.number ▸ hpr, _, _, _, _, hquery, asksFor_prepareQuery h, hids, himages ▸ himage⟩

/-- What fails before a build is the last that is sent, and leaves the workspaces alone. -/
theorem tree_eq_of_prepareLog (hlog : PrepareLog s env t es t' r) {x : Exchange} (hx : x ∈ es)
    {error : ImageError} (hfailed : settle x = .error error) :
    t' = t ∧ r = .error (.image error) := by
  cases hlog with
  | quiet => exact absurd hx List.not_mem_nil
  | unlisted =>
    obtain rfl := List.mem_singleton.1 hx
    cases hfailed
  | stopped hpr hids himages hmade =>
    refine ⟨rfl, ?_⟩
    obtain ⟨earlier, last, rfl, hearlier, hlast⟩ := hmade.of_abort_error
    rcases List.mem_cons.1 hx with rfl | hx
    · cases hfailed
    rcases List.mem_append.1 hx with hx | hx
    · cases hfailed.symm.trans (hearlier x hx)
    · obtain rfl := List.mem_singleton.1 hx
      cases hfailed.symm.trans hlast
      rfl
  | removed hpr hids himages hsettled =>
    rcases List.mem_cons.1 hx with rfl | hx
    · cases hfailed
    · cases hfailed.symm.trans (hsettled x hx)

/-- After a build that has failed a cleanup only says so. -/
theorem cleanup_of_failure (hpr : s.pr.number = some pr) (hfailure : s.build.outcome = .failure) :
    cleanup s env = writeLine "- ビルド失敗のため掃除しません（デバッグ用に残します）" := by
  have hnumber : s.requirePrNumber = .ok pr := require_of_eq_some hpr
  unfold cleanup
  rw [hnumber, hfailure]
  rfl

theorem returned_of_cleanupLog (h : From lookup s) (hfailed : ¬ Failed lookup)
    (hlog : CleanupLog s es) {e : EngineEndpoint} {answer : Answer}
    (hes : es = before ++ ⟨.engine e (.removeImage image), answer⟩ :: after) :
    ∃ pr, given lookup Variable.prNumber = some pr ∧
      (Returned pr (Finished lookup) before image ∨
        Finished lookup ∧ ∃ user, given lookup Variable.dockerhubUser = some user ∧
          image ∈ toolchainReferences user pr) := by
  cases hlog with
  | quiet => exact absurd hes.symm (List.append_ne_nil_of_right_ne_nil _ (List.cons_ne_nil _ _))
  | @asked pr e answer rounds hpr hrounds =>
    obtain ⟨hquery, himage⟩ := round_of_eq List.prefix_rfl hes
    obtain ⟨round, hround, rfl⟩ := List.mem_map.1 himage
    refine ⟨pr, h.number ▸ hpr, (hrounds round hround).imp ?_ ?_⟩
    · rintro ⟨ids, hids, hid⟩
      exact ⟨_, _, _, ids, hquery, asksFor_cleanupQuery h hfailed, hids, hid⟩
    · rintro ⟨hfull, user, huser, hreference⟩
      exact ⟨(afterBuild_eq_full_iff h).1 hfull, user, h.user ▸ huser, hreference⟩

/-- **What goes by what the variables say.**  Before a build and after it an image is removed only
if the engine has returned it for the label of the pull request, or, after the build of a finished
one, as a toolchain reference of the pull request.  The query for the label is one for images
without a tag unless the pull request is closed, before a build, or finished, after it.  After a
build that has failed nothing is sent, whatever the engine.  Before a build no workspace goes
after anything that fails. -/
theorem removes_by_scope {endpoints : Endpoints}
    (hs : Settings.ofVariables lookup endpoints = .ok s) (env : Environment) (server : Server)
    (w : World) :
    (∀ before e image answer after, (prepare s env).exchanges server w =
        before ++ ⟨.engine e (.removeImage image), answer⟩ :: after →
      ∃ pr, given lookup Variable.prNumber = some pr ∧
        Returned pr (Reads lookup Variable.prAction "closed") before image) ∧
    (∀ before e image answer after, (cleanup s env).exchanges server w =
        before ++ ⟨.engine e (.removeImage image), answer⟩ :: after →
      ∃ pr, given lookup Variable.prNumber = some pr ∧
        (Returned pr (Finished lookup) before image ∨
          Finished lookup ∧ ∃ user, given lookup Variable.dockerhubUser = some user ∧
            image ∈ toolchainReferences user pr)) ∧
    (∀ pr, given lookup Variable.prNumber = some pr → Failed lookup →
      ((cleanup s env).run server w).1 = .ok () ∧
        ((cleanup s env).run server w).2.requests = w.requests) ∧
    (∀ x ∈ (prepare s env).exchanges server w, ∀ error, settle x = .error error →
      ((prepare s env).run server w).1 = .error (.image error) ∧
        ((prepare s env).run server w).2.tree = w.tree) := by
  have h := Settings.from_of_ofVariables hs
  have hprepare := prepareLog_of_yields (yields_run server w (prepare s env))
  have hcleanup := cleanupLog_of_yields (yields_run server w (cleanup s env))
  have hskip : ∀ pr, s.pr.number = some pr → Failed lookup → cleanup s env = writeLine _ :=
    fun pr hpr hfailed => cleanup_of_failure hpr ((failed_iff h).2 hfailed)
  refine ⟨fun before e image answer after hes => returned_of_prepareLog h hprepare hes,
    fun before e image answer after hes => ?_, fun pr hpr hfailed => ?_,
    fun x hx error hfailed => (tree_eq_of_prepareLog hprepare hx hfailed).symm⟩
  · by_cases hfailed : Failed lookup
    · -- A number that is missing ends the cleanup, too.
      exfalso
      have hquiet : (cleanup s env).exchanges server w = [] := by
        generalize hlog : (cleanup s env).exchanges server w = es at hcleanup
        cases hcleanup with
        | quiet => rfl
        | asked hpr =>
          rw [hskip _ hpr hfailed] at hlog
          cases hlog
      rw [hquiet] at hes
      exact List.append_ne_nil_of_right_ne_nil _ (List.cons_ne_nil _ _) hes.symm
    · exact returned_of_cleanupLog h hfailed hcleanup hes
  · rw [hskip pr (h.number.trans hpr) hfailed]
    exact ⟨rfl, rfl⟩

/-! The cleanup before a build for the closed pull request 7. -/

namespace Leftover

/-- The source of variables, with blanks around the action. -/
def source : String → Option String := fun name =>
  if name = Variable.prNumber then some "7"
  else if name = Variable.prAction then some " closed "
  else if name = Variable.dockerSocket then some "tcp://localhost:2375"
  else none

def settings : Settings where
  dockerSocket := some "tcp://localhost:2375"
  cpuArch := Settings.hostArch
  dockerhubUser := none
  dockerhubToken := none
  githubToken := none
  build := ⟨none, none, none, none, .unknown⟩
  pr := ⟨some "7", some .closed, false, .other "", none⟩
  endpoints := {}

theorem ofVariables_eq : Settings.ofVariables source {} = .ok settings :=
  eq_ok_of_toOption (by decide +kernel)

def environment : Environment := ⟨"/", fun _ => none⟩

/-- An engine with one image, from which no container comes. -/
def server : Server := fun requests =>
  match requests.getLast? with
  | some (.engine _ (.listImages _)) => .reply ⟨200, none, .text "[\x7b\"Id\": \"a\"\x7d]"⟩
  | _ => .reply ⟨200, none, .text "[]"⟩

/-- Whether a request removes the image. -/
def removes : Request → Bool
  | .engine _ (.removeImage image) => image = "a"
  | _ => false

theorem run_removes :
    ((prepare settings environment).run server ⟨[], "", .empty⟩).2.requests.any removes = true := by
  decide +kernel

theorem exists_removal : ∃ before e answer after,
    (prepare settings environment).exchanges server ⟨[], "", .empty⟩ =
      before ++ ⟨.engine e (.removeImage "a"), answer⟩ :: after := by
  obtain ⟨before, q, answer, after, hes, hremoves⟩ := exists_exchange_of_any rfl run_removes
  rcases q with _ | ⟨e, _ | _⟩ <;> try cases hremoves
  obtain rfl := of_decide_eq_true hremoves
  exact ⟨before, e, answer, after, hes⟩

end Leftover

/-- The image goes, whether or not it has a tag. -/
theorem removes_by_scope_closed : ∃ before e answer after,
    (prepare Leftover.settings Leftover.environment).exchanges Leftover.server ⟨[], "", .empty⟩ =
        before ++ ⟨.engine e (.removeImage "a"), answer⟩ :: after ∧
      Returned "7" (Reads Leftover.source Variable.prAction "closed") before "a" ∧
      Reads Leftover.source Variable.prAction "closed" := by
  obtain ⟨before, e, answer, after, hes⟩ := Leftover.exists_removal
  obtain ⟨hprepare, -⟩ := removes_by_scope Leftover.ofVariables_eq Leftover.environment
    Leftover.server ⟨[], "", .empty⟩
  obtain ⟨pr, hpr, himage⟩ := hprepare _ _ _ _ _ hes
  have hseven : given Leftover.source Variable.prNumber = some "7" := by decide
  cases hseven.symm.trans hpr
  exact ⟨before, e, answer, after, hes, himage, " closed ", by decide, by decide⟩

end ImagePipeline.Command
