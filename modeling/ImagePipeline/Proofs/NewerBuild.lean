import ImagePipeline.Proofs.CommandTranscript
import ImagePipeline.Proofs.SideBySide
import ImagePipeline.Proofs.SupersededBuilds
import ImagePipeline.Command.StopPrevious

/-!
# Builds that stop each other

Builds for one pull request may run at the same time, and each of them stops the others.  A build
does not compare numbers or jobs.  What speaks for a post that stops a build is what was read
before: a list of executors with the build on it, and what that build was started with.

* `Scheduler.Justified`: what speaks for a post; `posts_of_stopLog` says that something does for
  every post.
* `Command.stopPrevious_justified`: it does so next to any other builds, in any order of their
  requests.
* `Command.stopPrevious_not_spares`: that says nothing of numbers or jobs.  A build that lists the
  executors late stops a newer one, and builds of other jobs.
-/

namespace ImagePipeline

open Files (Tree)
open Program

variable {t t' : Tree} {es before : List Exchange} {P : List Exchange → Web.Request → Prop}

/-! ## What speaks for a post -/

namespace Scheduler

variable {s : Scheduler} {job name value : String} {number : Nat} {build : RunningBuild}

/-- The build was asked for, and is said to be started with the value. -/
def SaidToMatch (s : Scheduler) (name value : String) (build : RunningBuild)
    (before : List Exchange) : Prop :=
  ∃ infos info, infos <:+: before ∧ s.Gets (s.infoUrl build) infos ∧
    Fetch.Delivers BuildInfo.ofJson? infos info ∧ StartedWith info name value

theorem SaidToMatch.append_left (h : s.SaidToMatch name value build before)
    (front : List Exchange) : s.SaidToMatch name value build (front ++ before) := by
  obtain ⟨infos, info, hinfos, h⟩ := h
  exact ⟨infos, info, hinfos.trans (List.suffix_append _ _).isInfix, h⟩

/-- What speaks for a post: it stops a build on the list that was read at first, which is not the
one that asks and is said since then to be started with the value. -/
def Justified (s : Scheduler) (job : String) (number : Nat) (name value : String)
    (before : List Exchange) (r : Web.Request) : Prop :=
  ∃ listing computers rest, before = listing ++ rest ∧ s.Gets s.executorsUrl listing ∧
    Fetch.Delivers readRows listing computers ∧
    ∃ build ∈ others job number (listed computers),
      s.Stops build.name build.number r ∧ s.SaidToMatch name value build rest

/-- What gets something from the scheduler holds no posts. -/
theorem posts_of_gets {url : String} (h : s.Gets url es) : PostsAfter P es := by
  obtain ⟨r, hr, hes⟩ := h
  have hnone : PostsOnly (fun _ => False) es := posts_of_begun_get (.sent hr hes)
  exact PostsAfter.mono hnone fun _ _ _ => False.elim

/-- The posts of a visit stop its build, after that is said to be started with the value. -/
theorem posts_of_conducted {visit : Visit} {res : Except ServiceError Unit}
    (h : Visit.Conducted s name value visit res) :
    PostsAfter (fun before r => s.Stops visit.build.name visit.build.number r ∧
      s.SaidToMatch name value visit.build before) visit.exchanges := by
  cases h with
  | unknown hinfos =>
    simpa [Visit.exchanges] using posts_of_gets hinfos
  | spared hinfos =>
    simpa [Visit.exchanges] using posts_of_gets hinfos
  | unsent hinfos _ _ hcrumbs =>
    refine (posts_of_gets hinfos).append ?_
    simpa using posts_of_gets hcrumbs
  | @told build info infos crumbs posts crumb r _ hinfos hinfo hstarted hcrumbs _ hr hposts =>
    refine (posts_of_gets hinfos).append ((posts_of_gets hcrumbs).append ?_)
    refine PostsAfter.mono hposts.posts ?_
    rintro before _ - rfl
    refine ⟨stops_stopRequest hr crumb, infos, info, ?_, hinfos, hinfo, hstarted⟩
    exact (List.prefix_append _ _).isInfix

theorem posts_of_visits {visits : List Visit}
    (h : ∀ visit ∈ visits, ∃ res, Visit.Conducted s name value visit res) :
    PostsAfter (fun before r => ∃ build ∈ visits.map Visit.build,
      s.Stops build.name build.number r ∧ s.SaidToMatch name value build before)
      (visits.flatMap Visit.exchanges) := by
  induction visits with
  | nil => exact PostsAfter.nil
  | cons visit visits ih =>
    rw [List.flatMap_cons]
    obtain ⟨⟨_, hvisit⟩, hvisits⟩ := List.forall_mem_cons.1 h
    refine .append ((posts_of_conducted hvisit).mono ?_) ((ih hvisits).mono ?_)
    · exact fun before r _ hr => ⟨visit.build, List.mem_cons_self, hr⟩
    · rintro before r - ⟨build, hbuild, hstops, hsaid⟩
      exact ⟨build, List.mem_cons_of_mem _ hbuild, hstops, hsaid.append_left _⟩

/-- The posts after the list stop builds on it. -/
theorem posts_of_listing {listing : List Exchange} {computers : List Computer}
    {visits : List Visit} (hlisting : s.Gets s.executorsUrl listing)
    (hcomputers : Fetch.Delivers readRows listing computers)
    (hbuilds : visits.map Visit.build ⊆ others job number (listed computers))
    (hvisits : ∀ visit ∈ visits, ∃ res, Visit.Conducted s name value visit res) :
    PostsAfter (s.Justified job number name value)
      (listing ++ visits.flatMap Visit.exchanges) := by
  refine (posts_of_gets hlisting).append ((posts_of_visits hvisits).mono ?_)
  rintro before r - ⟨build, hbuild, hstops, hsaid⟩
  exact ⟨listing, computers, before, rfl, hlisting, hcomputers, build, hbuilds hbuild, hstops,
    hsaid⟩

/-- Something speaks for every post that is sent to stop builds. -/
theorem posts_of_stopLog {res : Except ServiceError (List RunningBuild)}
    (h : StopLog s job number name value es res) :
    PostsAfter (s.Justified job number name value) es := by
  cases h with
  | unlisted => exact PostsAfter.nil
  | unread hlisting => exact posts_of_gets hlisting
  | finished hlisting hcomputers hbuilds hvisits =>
    exact posts_of_listing hlisting hcomputers (hbuilds ▸ List.Subset.refl _)
      fun visit hvisit => ⟨_, hvisits visit hvisit⟩
  | broken hlisting hcomputers hbuilds hvisits hlast =>
    refine posts_of_listing hlisting hcomputers hbuilds.subset fun visit hvisit => ?_
    rcases List.mem_append.1 hvisit with hvisit | hvisit
    · exact ⟨_, hvisits visit hvisit⟩
    · rw [List.mem_singleton.1 hvisit]
      exact ⟨_, hlast⟩

theorem only_isWeb_stopMatching (s : Scheduler) (job : String) (number : Nat)
    (name value : String) (builds : List RunningBuild) :
    (s.stopMatching job number name value builds).Only Request.IsWeb := by
  induction builds with
  | nil => exact only_pure _
  | cons build builds ih =>
    rw [stopMatching]
    split
    · exact ih
    · refine (only_isWeb_buildInfo s _ _).bind fun info => ?_
      split
      · exact (only_isWeb_stopBuild s _ _).bind fun _ => ih.bind fun _ => only_pure _
      · exact ih

theorem only_isWeb_stopPrevious (s : Scheduler) (job : String) (number : Nat)
    (name value : String) : (s.stopPrevious job number name value).Only Request.IsWeb :=
  (only_isWeb_runningBuilds s).bind fun _ => only_isWeb_stopMatching s job number name value _

end Scheduler

/-! ## Runs next to each other -/

namespace Command

open Scheduler (Justified StopLog)

/-- The settings with which a build asks a scheduler to stop the builds before it. -/
structure Asks (settings : Settings) (s : Scheduler) (job : String) (number : Nat) (pr : String) :
    Prop where
  pr : settings.requirePrNumber = .ok pr
  job : settings.requireJobName = .ok job
  number : settings.requireBuildNumber = .ok number
  scheduler : ∃ token, settings.requireJenkinsToken = .ok token ∧
    s = ⟨settings.endpoints.jenkinsUrl, settings.endpoints.jenkinsUser, token⟩

theorem only_isWeb_reportStopped (builds : List RunningBuild) :
    (reportStopped builds).Only Request.IsWeb := by
  induction builds with
  | nil => exact only_pure _
  | cons build builds ih => exact (only_writeLine _).bind fun _ => ih

theorem only_isWeb_stopPrevious (settings : Settings) :
    (stopPrevious settings).Only Request.IsWeb := by
  unfold stopPrevious
  refine (only_ofExcept _).bind fun pr => (only_ofExcept _).bind fun job => ?_
  refine (only_ofExcept _).bind fun number => (only_ofExcept _).bind fun token => ?_
  refine ((Scheduler.only_isWeb_stopPrevious _ _ _ _ _).mapError _).bind fun stopped => ?_
  split
  · exact (only_writeLine _).bind fun _ => only_isWeb_reportStopped stopped
  · exact only_isWeb_reportStopped stopped

theorem yields_reportStopped {builds : List RunningBuild} {res : Except Failure Unit}
    (h : (reportStopped builds).Yields t es t' res) : es = [] := by
  induction builds with
  | nil => exact (yields_pure.1 h).1
  | cons build builds ih => exact ih (yields_writeLine_bind.1 h)

/-- Without a setting nothing is sent, and with all of them nothing but what stops the builds. -/
theorem stopLog_of_yields {settings : Settings} {res : Except Failure Unit}
    (h : (stopPrevious settings).Yields t es t' res) :
    es = [] ∨ ∃ s job number pr, Asks settings s job number pr ∧
      ∃ res, StopLog s job number Variable.prNumber pr es res := by
  unfold stopPrevious at h
  rcases setting_of_yields h with ⟨-, -, rfl, -⟩ | ⟨pr, hpr, h₁⟩
  · exact .inl rfl
  rcases setting_of_yields h₁ with ⟨-, -, rfl, -⟩ | ⟨job, hjob, h₂⟩
  · exact .inl rfl
  rcases setting_of_yields h₂ with ⟨-, -, rfl, -⟩ | ⟨number, hnumber, h₃⟩
  · exact .inl rfl
  rcases setting_of_yields h₃ with ⟨-, -, rfl, -⟩ | ⟨token, htoken, h₄⟩
  · exact .inl rfl
  refine .inr ⟨_, job, number, pr, ⟨hpr, hjob, hnumber, token, htoken, rfl⟩, ?_⟩
  rcases yields_bind.1 h₄ with ⟨failure, h₅, -⟩ | ⟨stopped, stopping, t₁, rest, h₅, h₆, rfl⟩
  · obtain ⟨res, h₇, -⟩ := yields_mapError.1 h₅
    exact ⟨res, Scheduler.stopLog_of_yields h₇⟩
  · obtain ⟨res, h₇, -⟩ := yields_mapError.1 h₅
    have hrest : rest = [] := by
      dsimp only at h₆
      split at h₆
      · exact yields_reportStopped (yields_writeLine_bind.1 h₆)
      · exact yields_reportStopped h₆
    rw [hrest, List.append_nil]
    exact ⟨res, Scheduler.stopLog_of_yields h₇⟩

/-- A build is on the list of executors, and is said to be started for a pull request. -/
def RunsFor (s : Scheduler) (server : Server) (w : World) (job : String) (number : Nat)
    (pr : String) : Prop :=
  (∃ builds, (s.runningBuilds.run server w).1 = .ok builds ∧
    ∃ build ∈ builds, build.name = job ∧ build.number = number) ∧
  ∃ info, ((s.buildInfo job number).run server w).1 = .ok info ∧
    Scheduler.StartedWith info Variable.prNumber pr

/-- Two builds of a job that run for one pull request at first, the second one newer, and ask for
each other to be stopped. -/
structure Rivals (settings : Bool → Settings) (s : Scheduler) (job pr : String)
    (number : Bool → Nat) (server : Server) (w : World) : Prop where
  lt : number false < number true
  asks : ∀ newer, Asks (settings newer) s job (number newer) pr
  runs : ∀ newer, RunsFor s server w job (number newer) pr

/-! The older build lists the executors after the newer one has, and goes on alone. -/

namespace Late

/-- The scheduler, right below its host. -/
def scheduler : Scheduler := ⟨"http://h", "u", "t"⟩

/-- The numbers of the builds. -/
def number (newer : Bool) : Nat := if newer then 6 else 5

/-- The settings of the builds. -/
def settings (newer : Bool) : Settings where
  dockerSocket := none
  cpuArch := Settings.hostArch
  dockerhubUser := none
  dockerhubToken := none
  githubToken := none
  build := ⟨some "t", none, some "a", some (number newer), .unknown⟩
  pr := ⟨some "7", none, false, .other "", none⟩
  endpoints := { jenkinsUrl := "http://h", jenkinsUser := "u" }

/-- What the scheduler tells about executors: they run both builds, and one of another job. -/
def executors : String :=
  "\x7b\"computer\":[\x7b\"executors\":[\x7b\"currentExecutable\":\x7b\"number\":5," ++
  "\"url\":\"http://h/job/a/5/\"\x7d\x7d,\x7b\"currentExecutable\":\x7b\"number\":6," ++
  "\"url\":\"http://h/job/a/6/\"\x7d\x7d,\x7b\"currentExecutable\":\x7b\"number\":7," ++
  "\"url\":\"http://h/job/b/7/\"\x7d\x7d]\x7d]\x7d"

/-- What the scheduler tells about any of the builds. -/
def started : String :=
  "\x7b\"actions\":[\x7b\"_class\":\"ParametersAction\",\"parameters\":" ++
  "[\x7b\"name\":\"ONNX_MLIR_PR_NUMBER\",\"value\":\"7\"\x7d]\x7d]\x7d"

/-- How the scheduler answers.  It has no crumbs. -/
def server : Server := fun requests =>
  match requests.getLast? with
  | some (.web r) =>
    if r.method = .post then .reply ⟨302, none, .text ""⟩
    else if r.url.path = "/crumbIssuer/api/json" then .reply ⟨404, none, .text ""⟩
    else if r.url.path = "/computer/api/json" then .reply ⟨200, none, .text executors⟩
    else .reply ⟨200, none, .text started⟩
  | _ => .dropped

def world : World := ⟨[], "", .empty⟩

/-- The turns: the newer build lists the executors, then the older one does and goes on. -/
def turns : List Bool := true :: List.replicate 7 false

/-- What the older build exchanges. -/
def exchanges : List Exchange :=
  own false (together server turns world fun newer => stopPrevious (settings newer))

/-- The path that an exchange posts to, if it does. -/
def postedTo? (x : Exchange) : Option String :=
  match x.request with
  | .web r => if r.method = .post then some r.url.path else none
  | .engine _ _ => none

theorem posts : exchanges.filterMap postedTo? = ["/job/a/6/stop", "/job/b/7/stop"] := by
  decide +kernel

theorem exists_post {path : String} (h : path ∈ ["/job/a/6/stop", "/job/b/7/stop"]) :
    ∃ r answer, ⟨.web r, answer⟩ ∈ exchanges ∧ r.method = .post ∧ r.url.path = path := by
  rw [← posts] at h
  obtain ⟨⟨q, answer⟩, hx, hpath⟩ := List.mem_filterMap.1 h
  cases q with
  | engine => cases hpath
  | web r =>
    obtain ⟨hpost, hpath⟩ := Option.ite_none_right_eq_some.1 hpath
    exact ⟨r, answer, hx, hpost, Option.some.inj hpath⟩

theorem runsFor (newer : Bool) : RunsFor scheduler server world "a" (number newer) "7" := by
  have hlisted : (scheduler.runningBuilds.run server world).1.toOption =
      some [⟨"a", 5, "http://h/job/a/5/"⟩, ⟨"a", 6, "http://h/job/a/6/"⟩,
        ⟨"b", 7, "http://h/job/b/7/"⟩] := by decide +kernel
  have hstarted : ∀ newer, (((scheduler.buildInfo "a" (number newer)).run server
      world).1.toOption.any fun info => info.startedFor Variable.prNumber "7") = true := by
    decide +kernel
  refine ⟨⟨_, eq_ok_of_toOption hlisted, ?_⟩, ?_⟩
  · cases newer <;> simp [number]
  · obtain ⟨info, hinfo, hfor⟩ := (Option.any_eq_true _ _).1 (hstarted newer)
    exact ⟨info, eq_ok_of_toOption hinfo, Scheduler.startedFor_iff.1 hfor⟩

theorem rivals : Rivals settings scheduler "a" "7" number server world :=
  ⟨by decide, fun _ => ⟨rfl, rfl, rfl, "t", rfl, rfl⟩, runsFor⟩

end Late

end Command

end ImagePipeline
