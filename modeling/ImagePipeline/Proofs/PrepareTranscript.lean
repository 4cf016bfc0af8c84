import ImagePipeline.Command.Cleanup
import ImagePipeline.Proofs.CleanupContainers

/-!
# Transcripts of the cleanup before a build

Before a build a failure ends the cleanup.  So the workspaces are reached only if every removal has
gone well, and of their settings, which are looked at last, the images know nothing.

* `Cleared`: what becomes of the workspaces once the images are gone.
* `PrepareLog`: the transcripts of the cleanup, with the files it leaves and its result.
-/

namespace ImagePipeline.Command

open Engine
open Files (Tree removeMatching)
open Program

variable {s : Settings} {env : Environment} {t t' : Tree} {es : List Exchange}

/-- What becomes of the workspaces of a pull request. -/
inductive Cleared (s : Settings) (env : Environment) (pr : String) (t : Tree) :
    Tree → Except Failure Unit → Prop where
  /-- They stay while it is not closed. -/
  | kept (hopen : action s ≠ .closed) : Cleared s env pr t t (.ok ())
  /-- They are not found without the settings that say where they are. -/
  | unknown {name : String} (hclosed : action s = .closed)
      (hname : name = Variable.jenkinsHome ∨ name = Variable.jobName) :
    Cleared s env pr t t (.error (.settings (.missingVariable name)))
  /-- They are removed, as far as that goes well. -/
  | swept {home job : String} (hclosed : action s = .closed)
      (hhome : s.build.home = some home) (hjob : s.build.jobName = some job) :
    Cleared s env pr t (removeMatching t env.here (workspacePattern home job pr)).1
      (((removeMatching t env.here (workspacePattern home job pr)).2.map fun _ => ()).mapError
        .removal)

/-- The query for the images of a pull request before a build. -/
def prepareQuery (s : Settings) (pr : String) : ImageQuery :=
  { ImageQuery.ofLabel (prLabelFilter pr) with
    dangling := (CleanupScope.beforeBuild (action s)).danglingOnly
    all := true }

/-- The transcripts of a cleanup before a build. -/
inductive PrepareLog (s : Settings) (env : Environment) (t : Tree) :
    List Exchange → Tree → Except Failure Unit → Prop where
  /-- It ends before anything is sent. -/
  | quiet {failure : Failure} : PrepareLog s env t [] t (.error failure)
  /-- The images are not to be had. -/
  | unlisted {pr : String} {e : EngineEndpoint} {answer : Answer} {error : ImageError}
      (hpr : s.pr.number = some pr) (hids : toldIds answer = .error error) :
    PrepareLog s env t [⟨.engine e (.listImages (prepareQuery s pr)), answer⟩] t
      (.error (.image error))
  /-- A removal fails, and nothing is sent after it. -/
  | stopped {pr : String} {e : EngineEndpoint} {answer : Answer} {ids : List String}
      {rounds : List Removal} {made : List Exchange} {error : ImageError}
      (hpr : s.pr.number = some pr) (hids : toldIds answer = .ok ids)
      (himages : rounds.map (·.image) = ids)
      (hmade : Conducted .abort .empty (rounds.flatMap (·.exchanges e)) made (.error error)) :
    PrepareLog s env t (⟨.engine e (.listImages (prepareQuery s pr)), answer⟩ :: made) t
      (.error (.image error))
  /-- All images that the engine returns are removed, and then it is the turn of the workspaces. -/
  | removed {pr : String} {e : EngineEndpoint} {answer : Answer} {ids : List String}
      {rounds : List Removal} {t' : Tree} {r : Except Failure Unit}
      (hpr : s.pr.number = some pr) (hids : toldIds answer = .ok ids)
      (himages : rounds.map (·.image) = ids)
      (hsettled : ∀ x ∈ rounds.flatMap (·.exchanges e), settle x = .ok ())
      (hcleared : Cleared s env pr t t' r) :
    PrepareLog s env t (⟨.engine e (.listImages (prepareQuery s pr)), answer⟩ ::
      rounds.flatMap (·.exchanges e)) t' r

/-- Removing workspaces sends nothing, and ends as the removal of the files does. -/
theorem removeWorkspaces_of_yields {pattern : String} {r : Except Failure Nat}
    (h : (removeWorkspaces env pattern).Yields t es t' r) :
    es = [] ∧ t' = (removeMatching t env.here pattern).1 ∧
      r = ((removeMatching t env.here pattern).2.map List.length).mapError .removal := by
  unfold removeWorkspaces at h
  rw [yields_files_bind] at h
  cases hremoved : removeMatching t env.here pattern with
  | mk rest result =>
    rw [hremoved] at h
    dsimp only at h
    rw [yields_setFiles_bind] at h
    cases result with
    | error error => exact yields_fail.1 h
    | ok removed => exact yields_pure.1 h

theorem cleared_of_yields {pr : String} {r : Except Failure Unit}
    (h : (if removesWorkspaces (action s) then do
        let home ← setting s.requireJenkinsHome
        let job ← setting s.requireJobName
        let removed ← removeWorkspaces env (workspacePattern home job pr)
        writeLine ("  ✓ ワークスペース " ++ count removed ++ " 件を削除")
      else pure () : Command Unit).Yields t es t' r) :
    es = [] ∧ Cleared s env pr t t' r := by
  by_cases hclosed : action s = .closed
  · rw [hclosed, if_pos (by rfl)] at h
    rcases required_of_yields h with ⟨-, rfl, rfl, rfl⟩ | ⟨home, hhome, h₁⟩
    · exact ⟨rfl, .unknown hclosed (.inl rfl)⟩
    rcases required_of_yields h₁ with ⟨-, rfl, rfl, rfl⟩ | ⟨job, hjob, h₂⟩
    · exact ⟨rfl, .unknown hclosed (.inr rfl)⟩
    have hswept : Cleared s env pr t _ _ := .swept hclosed hhome hjob
    rcases yields_bind.1 h₂ with ⟨failure, h₃, rfl⟩ | ⟨n, es₁, t₁, es₂, h₃, h₄, rfl⟩
    · obtain ⟨rfl, rfl, hr⟩ := removeWorkspaces_of_yields h₃
      cases hresult : (removeMatching t env.here (workspacePattern home job pr)).2 with
      | ok removed =>
        rw [hresult] at hr
        cases hr
      | error error =>
        rw [hresult] at hr hswept
        cases hr
        exact ⟨rfl, hswept⟩
    · obtain ⟨rfl, rfl, hr⟩ := removeWorkspaces_of_yields h₃
      obtain ⟨rfl, rfl, rfl⟩ := yields_writeLine.1 h₄
      cases hresult : (removeMatching t env.here (workspacePattern home job pr)).2 with
      | ok removed =>
        rw [hresult] at hswept
        exact ⟨rfl, hswept⟩
      | error error =>
        rw [hresult] at hr
        cases hr
  · have hopen : ¬ removesWorkspaces (action s) = true := fun h => hclosed (of_decide_eq_true h)
    rw [if_neg hopen] at h
    obtain ⟨rfl, rfl, rfl⟩ := yields_pure.1 h
    exact ⟨rfl, .kept hclosed⟩

theorem prepareLog_of_yields {r : Except Failure Unit} (h : (prepare s env).Yields t es t' r) :
    PrepareLog s env t es t' r := by
  unfold prepare at h
  rcases required_of_yields h with ⟨-, rfl, rfl, rfl⟩ | ⟨pr, hpr, h₁⟩
  · exact .quiet
  dsimp only at h₁
  rw [yields_writeLine_bind] at h₁
  rcases connect_of_yields h₁ with ⟨failure, rfl, rfl, rfl⟩ | ⟨e, -, h₂⟩
  · exact .quiet
  rw [onImages, prImages, find_eq, ask_mapError] at h₂
  obtain ⟨answer, rest, rfl, hrest⟩ := yields_ask_bind.1 h₂
  cases hids : toldIds answer with
  | error error =>
    rw [hids] at hrest
    rcases hrest with ⟨failure, hfailure, rfl, rfl, rfl⟩ | ⟨ids, hok, -⟩
    · cases hfailure
      exact .unlisted hpr hids
    · cases hok
  | ok ids =>
    rw [hids] at hrest
    rcases hrest with ⟨failure, hfailure, -⟩ | ⟨ids', hok, h₃⟩
    · cases hfailure
    cases hok
    rcases yields_bind.1 h₃ with ⟨failure, h₄, rfl⟩ | ⟨report, es₁, t₁, es₂, h₄, h₅, rfl⟩
    · obtain ⟨r₀, h₀, hr₀⟩ := yields_mapError.1 h₄
      obtain ⟨rfl, rounds, himages, hmade⟩ := conducted_of_yields_removeImages h₀
      cases r₀ with
      | ok => cases hr₀
      | error error =>
        cases hr₀
        exact .stopped hpr hids himages hmade
    · obtain ⟨r₀, h₀, hr₀⟩ := yields_mapError.1 h₄
      obtain ⟨rfl, rounds, himages, hmade⟩ := conducted_of_yields_removeImages h₀
      cases r₀ with
      | error => cases hr₀
      | ok report' =>
        cases hr₀
        obtain ⟨rfl, -, hsettled⟩ := hmade.of_abort_ok
        rw [yields_writeLine_bind] at h₅
        obtain ⟨rfl, hcleared⟩ := cleared_of_yields h₅
        rw [List.append_nil]
        exact .removed hpr hids himages hsettled hcleared

end ImagePipeline.Command
