import ImagePipeline.Proofs.JobAddress
import ImagePipeline.Proofs.SchedulerTranscript

/-!
# The build that asks

A build that stops the builds before it is on an executor itself, so it is listed with them.  It
leaves itself out by the name of its job, but of a listed build the name is read from an address,
where characters are percent-encoded that a name may have.

* `StopsListed`: the posts that stop the build with the address that the scheduler gives.
* `Missed`: the build that asks is listed by a name that is not the one it has.
* `missed_of_listed`: that is so if its job has a character that addresses do not have, as long as
  nothing in the address reads like another step in front of a name.
* `stopPrevious_own`: a build stops itself only if it is missed.  If it is, it asks for itself, and
  stops itself if it was started for the value.
-/

namespace ImagePipeline

open Program
open Web.Url (IsWireChar IsWireStep LeadsOn IsBase)

namespace Scheduler

variable {s : Scheduler} {keep : Char → Bool} {segments : List String} {number : Nat}
  {name value : String} {server : Server} {w : World} {builds : List RunningBuild}

/-- A post to the path that stops a build, as it goes over the wire. -/
def StopsListed (s : Scheduler) (keep : Char → Bool) (segments : List String) (number : Nat)
    (r : Web.Request) : Prop :=
  r.method = .post ∧ ∃ u, Web.Url.read? (s.listedUrl keep segments number ++ "stop") = some u ∧
    r.url.path = u.path

/-! ## The name of the build that asks -/

/-- A build is listed by the name in the address of the build that asks, and that is not the name
of its job. -/
def Missed (keep : Char → Bool) (segments : List String) (number : Nat)
    (builds : List RunningBuild) : Prop :=
  encoded keep segments ≠ segments ∧
    ∃ build ∈ builds, build.name = "/".intercalate (encoded keep segments) ∧ build.number = number

/-- A job whose characters addresses keep is not missed. -/
theorem not_missed_of_keep (hkept : ∀ step ∈ segments, ∀ c ∈ step.toList, keep c = true) :
    ¬ Missed keep segments number builds :=
  fun hmissed => hmissed.1 (encoded_of_keep hkept)

/-- One with another character is, unless a step of its address reads like one in front of a
name. -/
theorem missed_of_listed (hslash : keep '/' = false) (hne : segments ≠ [])
    (hurl : ∀ build ∈ builds, jobNameOfUrl? build.url = some build.name)
    (hown : ∃ build ∈ builds, build.number = number ∧ build.url = s.listedUrl keep segments number)
    (hchar : ∃ step ∈ segments, ∃ c ∈ step.toList, keep c = false)
    (hbase : jobStep ∉ Text.split '/' s.base) (hsteps : jobStep ∉ encoded keep segments) :
    Missed keep segments number builds := by
  obtain ⟨step, hstep, c, hc, hkeep⟩ := hchar
  obtain ⟨build, hbuild, hnumber, haddress⟩ := hown
  have hname := hurl build hbuild
  rw [haddress, jobNameOfUrl?_listedUrl hslash hne hbase hsteps] at hname
  exact ⟨encoded_ne hstep hc hkeep, build, hbuild, (Option.some.inj hname).symm, hnumber⟩

theorem intercalate_encoded_ne (hslash : keep '/' = false) (hne : segments ≠ [])
    (hsegments : ∀ step ∈ segments, IsStep step) (h : encoded keep segments ≠ segments) :
    "/".intercalate (encoded keep segments) ≠ "/".intercalate segments := by
  intro heq
  have hencoded : encoded keep segments ≠ [] := by simpa [encoded] using hne
  apply h
  rw [← Text.split_intercalate (not_slash_of_mem_encoded hslash) hencoded, heq,
    Text.split_intercalate (fun step hstep => (hsegments step hstep).2) hne]

/-! ## What is posted to the build that asks -/

/-- What the addresses are made of goes over the wire as it is: the base, the characters that the
scheduler keeps, the steps of the build that asks, and the names of the builds that are listed. -/
structure InWireForm (s : Scheduler) (keep : Char → Bool) (segments : List String)
    (builds : List RunningBuild) : Prop where
  isBase : IsBase s.base
  isWireChar : ∀ c, keep c = true → IsWireChar c
  leadsOn : ∀ step ∈ encoded keep segments, LeadsOn step.toList
  isWireStep : ∀ build ∈ builds, ∀ step ∈ namesAfterJob (Text.split '/' build.url),
    IsWireStep step.toList

theorem isWireStep_of_mem_encoded (hkeep : ∀ c, keep c = true → IsWireChar c)
    (hslash : keep '/' = false) (hsegments : ∀ step ∈ segments, IsStep step)
    (hleads : ∀ step ∈ encoded keep segments, LeadsOn step.toList) :
    ∀ step ∈ encoded keep segments, IsWireStep step.toList := by
  have hplain : ∀ n < 16, IsWireChar (Web.Url.hexDigit n) := by
    unfold IsWireChar
    decide
  intro step hstep
  obtain ⟨hempty, hnot⟩ :=
    isStep_of_mem_encoded hslash (fun step hstep => (hsegments step hstep).1) step hstep
  refine ⟨fun hnil => hempty (String.toList_eq_nil_iff.1 hnil), fun c hc => ?_, hnot,
    hleads step hstep⟩
  obtain ⟨segment, -, rfl⟩ := List.mem_map.1 hstep
  rw [String.toList_ofList] at hc
  rcases Web.Url.mem_percentEncode hc with ⟨-, h⟩ | rfl | ⟨n, hn, rfl⟩
  · exact hkeep c h
  · exact ⟨by decide, by decide⟩
  · exact hplain n hn

/-- On the wire, a post that stops a build goes to the path of the build that asks only if the
build is listed by the name in the address of that. -/
theorem eq_of_stops_of_stopsListed (hslash : keep '/' = false) (hne : segments ≠ [])
    (hsegments : ∀ step ∈ segments, IsStep step) (hwire : InWireForm s keep segments builds)
    {build : RunningBuild} (hbuild : build ∈ builds)
    (hurl : jobNameOfUrl? build.url = some build.name) {r : Web.Request}
    (hstops : s.Stops build.name build.number r) (hlisted : s.StopsListed keep segments number r) :
    build.name = "/".intercalate (encoded keep segments) ∧ build.number = number := by
  obtain ⟨-, own, hown, hpath⟩ := hlisted
  obtain ⟨-, u, hu, hupath⟩ := hstops
  obtain ⟨hnames, hname⟩ := jobNameOfUrl?_eq_some hurl
  have hencoded : encoded keep segments ≠ [] := by simpa [encoded] using hne
  rw [← stopUrl_encoded hslash (fun step hstep => (hsegments step hstep).1) hne] at hown
  rw [hname] at hu
  obtain ⟨hsteps, hnumber⟩ := stopPath_injective hwire.isBase hnames hencoded
    (hwire.isWireStep build hbuild)
    (isWireStep_of_mem_encoded hwire.isWireChar hslash hsegments hwire.leadsOn) hu hown
    (hupath.symm.trans hpath)
  exact ⟨by rw [hname, hsteps], hnumber⟩

/-- The posts to the builds that are left do not stop the build that asks, unless it is missed. -/
theorem not_stopsListed_of_stops (hslash : keep '/' = false) (hne : segments ≠ [])
    (hsegments : ∀ step ∈ segments, IsStep step) (hwire : InWireForm s keep segments builds)
    (hmissed : ¬ Missed keep segments number builds)
    {build : RunningBuild} (hbuild : build ∈ builds)
    (hurl : jobNameOfUrl? build.url = some build.name)
    (hother : ¬ (build.name = "/".intercalate segments ∧ build.number = number))
    {r : Web.Request} (hstops : s.Stops build.name build.number r) :
    ¬ s.StopsListed keep segments number r := by
  intro hlisted
  obtain ⟨hname, hnumber⟩ :=
    eq_of_stops_of_stopsListed hslash hne hsegments hwire hbuild hurl hstops hlisted
  by_cases hsame : encoded keep segments = segments
  · exact hother ⟨by rw [hname, hsame], hnumber⟩
  · exact hmissed ⟨hsame, build, hbuild, hname, hnumber⟩

/-- A run lists the builds, then visits them. -/
theorem exists_visits_of_run (job : String) (number : Nat) (name value : String)
    (hlisted : (s.runningBuilds.run server w).1 = .ok builds) :
    ∃ listing visiting ok, s.runningBuilds.Yields w.tree listing w.tree (.ok builds) ∧
      Visits s job number name value w.tree builds visiting ok ∧
      (s.stopPrevious job number name value).exchanges server w = listing ++ visiting ∧
      ((s.stopPrevious job number name value).run server w).1.isOk = ok := by
  have hrun : s.runningBuilds.run server w =
      (.ok builds, (s.runningBuilds.run server w).2) := by rw [← hlisted]
  have hlisting := yields_run server w s.runningBuilds
  rw [hlisted] at hlisting
  have htree := hlisting.tree_eq (only_isWeb_runningBuilds s)
  have hvisiting := yields_run server (s.runningBuilds.run server w).2
    (s.stopMatching job number name value builds)
  rw [htree] at hlisting hvisiting
  have hlog : (s.stopPrevious job number name value).exchanges server w = _ :=
    exchanges_bind hrun (s.stopMatching job number name value)
  have hok : (s.stopPrevious job number name value).run server w = _ :=
    run_bind server w s.runningBuilds (s.stopMatching job number name value)
  rw [hrun] at hok
  exact ⟨_, _, _, hlisting, (visits_of_yields hvisiting).2, hlog, congrArg (·.1.isOk) hok⟩

/-- **A build stops itself only if it is missed.**  In a run that lists the build under the address
that the scheduler gives to it:

* unless the build is missed, no post goes to its own path, but for one that repeats the post
  before it where the answer to that says so;
* if it is missed and the run succeeds, the build is asked for what it was started for, and a post
  goes to its own path if it was started for the value.

It is not missed if addresses keep the characters of the steps of its job.  With any other character
it is, unless a step of the address reads like one in front of a name. -/
theorem stopPrevious_own (hslash : keep '/' = false) (hne : segments ≠ [])
    (hsegments : ∀ step ∈ segments, IsStep step)
    (hlisted : (s.runningBuilds.run server w).1 = .ok builds)
    (hown : ∃ build ∈ builds,
      build.number = number ∧ build.url = s.listedUrl keep segments number) :
    (¬ Missed keep segments number builds → InWireForm s keep segments builds →
      ∀ before r answer after,
        (s.stopPrevious ("/".intercalate segments) number name value).exchanges server w =
            before ++ ⟨.web r, answer⟩ :: after →
          s.StopsListed keep segments number r → Repeated before) ∧
    (Missed keep segments number builds →
      ((s.stopPrevious ("/".intercalate segments) number name value).run server w).1.isOk = true →
      ∃ asked info,
        asked <:+:
            (s.stopPrevious ("/".intercalate segments) number name value).exchanges server w ∧
        (s.buildInfo ("/".intercalate (encoded keep segments)) number).Yields w.tree asked w.tree
          (.ok info) ∧
        (info.startedFor name value = true → ∃ r answer,
          ⟨.web r, answer⟩ ∈
              (s.stopPrevious ("/".intercalate segments) number name value).exchanges server w ∧
            s.StopsListed keep segments number r)) ∧
    ((∀ step ∈ segments, ∀ c ∈ step.toList, keep c = true) →
      ¬ Missed keep segments number builds) ∧
    ((∃ step ∈ segments, ∃ c ∈ step.toList, keep c = false) →
      jobStep ∉ Text.split '/' s.base → jobStep ∉ encoded keep segments →
      Missed keep segments number builds) := by
  obtain ⟨listing, visiting, ok, hlisting, hvisits, hlog, hok⟩ :=
    exists_visits_of_run ("/".intercalate segments) number name value hlisted
  have hurl := jobNameOfUrl?_of_yields hlisting
  rw [hlog, hok]
  refine ⟨fun hmissed hwire before r answer after hes hstops => ?_, fun hmissed hok => ?_,
    not_missed_of_keep, missed_of_listed hslash hne hurl hown⟩
  · have hposts := (posts_of_yields_runningBuilds hlisting).append hvisits.posts
    rcases hposts before r answer after hes hstops.1 with
      ⟨build, hbuild, hother, hbuildStops⟩ | hrepeated
    · exact absurd hstops (not_stopsListed_of_stops hslash hne hsegments hwire hmissed hbuild
        (hurl build hbuild) hother hbuildStops)
    · exact hrepeated
  · obtain ⟨hdiffers, build, hbuild, hname, hnumber⟩ := hmissed
    have hother : ¬ (build.name = "/".intercalate segments ∧ build.number = number) :=
      fun hown => intercalate_encoded_ne hslash hne hsegments hdiffers (hname ▸ hown.1)
    obtain ⟨asked, info, hasked, hinfo, hstops⟩ := hvisits.asked hok hbuild hother
    rw [hname, hnumber] at hinfo hstops
    refine ⟨asked, info, hasked.trans (List.suffix_append _ _).isInfix, hinfo, fun hstarted => ?_⟩
    obtain ⟨r, answer, hmem, hpost, u, hu, hpath⟩ := hstops hstarted
    rw [stopUrl_encoded hslash (fun step hstep => (hsegments step hstep).1) hne] at hu
    exact ⟨r, answer, List.mem_append_right _ hmem, hpost, u, hu, hpath⟩

/-! A build that is alone on the executors. -/

namespace Alone

/-- The scheduler, right below its host. -/
def scheduler : Scheduler := ⟨"http://h", "user", "token"⟩

/-- Steps keep what paths keep, but for what means something in a path. -/
def keepInStep (c : Char) : Bool := Web.Url.keepInPath c && !"/%\\".toList.contains c

/-- What the scheduler tells about executors. -/
def executors (steps : List String) : Json :=
  .object [("computer", .array [.object [("executors", .array [.object [("currentExecutable",
    .object [("number", .number (.ofNat 5)),
      ("url", .string (scheduler.listedUrl keepInStep steps 5))])]])]])]

/-- What the scheduler tells about the build. -/
def started : Json :=
  .object [("number", .number (.ofNat 5)), ("building", .bool true), ("actions", .array [.object
    [("_class", .string "hudson.model.ParametersAction"), ("parameters", .array [.object
      [("name", .string "PR"), ("value", .string "7")]])]])]

/-- How the scheduler answers. -/
def answers (steps : List String) : Server := fun requests =>
  match requests.getLast? with
  | some (.web r) =>
    if r.method = .post then .reply ⟨302, none, .text ""⟩
    else
      let told := if r.url.path = "/computer/api/json" then executors steps else started
      .reply ⟨200, none, .text told.render⟩
  | _ => .dropped

def world : World := ⟨[], "", .empty⟩

/-- The build as it is listed. -/
def build (steps : List String) : RunningBuild :=
  ⟨"/".intercalate (encoded keepInStep steps), 5, scheduler.listedUrl keepInStep steps 5⟩

/-- The build stops the builds before it. -/
def stop (steps : List String) : Program ServiceError (List RunningBuild) :=
  scheduler.stopPrevious ("/".intercalate steps) 5 "PR" "7"

theorem inWireForm {steps : List String} (hsegments : ∀ step ∈ steps, IsStep step)
    (hleads : ∀ step ∈ encoded keepInStep steps, LeadsOn step.toList)
    (hsteps : jobStep ∉ encoded keepInStep steps) :
    InWireForm scheduler keepInStep steps [build steps] := by
  have hkeep : ∀ c, keepInStep c = true → IsWireChar c := by
    intro c hc
    rw [keepInStep, Bool.and_eq_true, Bool.not_eq_true'] at hc
    refine ⟨hc.1, ?_⟩
    rintro rfl
    exact absurd hc.2 (by decide)
  have hbase : IsBase scheduler.base :=
    ⟨Web.Url.isWireChar_of_all (by decide +kernel), by decide +kernel⟩
  refine ⟨hbase, hkeep, hleads, ?_⟩
  intro listed hlisted step hstep
  obtain rfl := List.mem_singleton.1 hlisted
  rw [build, namesAfterJob_listedUrl (by decide) (by decide +kernel) hsteps] at hstep
  exact isWireStep_of_mem_encoded hkeep (by decide) hsegments hleads step hstep

theorem runningBuilds_plain :
    (scheduler.runningBuilds.run (answers ["a", "b"]) world).1 = .ok [build ["a", "b"]] :=
  eq_ok_of_toOption (by decide +kernel)

/-- Whether a request is a post to the path that stops the build of the job with a blank. -/
def stopsBlank : Request → Bool
  | .web r => r.method = .post ∧ r.url.path = "/job/my%20job/5/stop"
  | .engine _ _ => false

/-- The run of the build of the job with a blank. -/
theorem stop_blank :
    (scheduler.runningBuilds.run (answers ["my job"]) world).1.toOption =
        some [build ["my job"]] ∧
      ((stop ["my job"]).run (answers ["my job"]) world).1.isOk = true ∧
      ((stop ["my job"]).run (answers ["my job"]) world).2.requests.any stopsBlank = true := by
  decide +kernel

end Alone

/-- A build of a job with a blank in its name asks for itself, and one of a plain job is not
stopped. -/
theorem stopPrevious_own_alone :
    (∃ asked info,
      asked <:+: (Alone.stop ["my job"]).exchanges (Alone.answers ["my job"]) Alone.world ∧
        (Alone.scheduler.buildInfo "my%20job" 5).Yields .empty asked .empty (.ok info)) ∧
    ∀ before r answer after,
      (Alone.stop ["a", "b"]).exchanges (Alone.answers ["a", "b"]) Alone.world =
          before ++ ⟨.web r, answer⟩ :: after →
        Alone.scheduler.StopsListed Alone.keepInStep ["a", "b"] 5 r → Repeated before := by
  have hblank : ∀ step ∈ ["my job"], IsStep step := by unfold IsStep; decide
  have hplain : ∀ step ∈ ["a", "b"], IsStep step := by unfold IsStep; decide
  obtain ⟨-, hasked, -, hmissed⟩ := @stopPrevious_own Alone.scheduler Alone.keepInStep ["my job"] 5
    "PR" "7" (Alone.answers ["my job"]) Alone.world _ (by decide) (by decide) hblank
    (eq_ok_of_toOption Alone.stop_blank.1) ⟨_, List.mem_cons_self, rfl, rfl⟩
  obtain ⟨hposts, -, hkept, -⟩ := @stopPrevious_own Alone.scheduler Alone.keepInStep ["a", "b"] 5
    "PR" "7" (Alone.answers ["a", "b"]) Alone.world _ (by decide) (by decide) hplain
    Alone.runningBuilds_plain ⟨_, List.mem_cons_self, rfl, rfl⟩
  have hkeep : ∀ step ∈ ["a", "b"], ∀ c ∈ step.toList, Alone.keepInStep c = true := by
    intro step hstep
    have htest : ["a", "b"].all (·.toList.all Alone.keepInStep) = true := by decide
    exact List.all_eq_true.1 (List.all_eq_true.1 htest step hstep)
  refine ⟨?_, hposts (hkept hkeep) (Alone.inWireForm hplain ?_ (by decide +kernel))⟩
  · have hchar : ∃ step ∈ ["my job"], ∃ c ∈ step.toList, Alone.keepInStep c = false :=
      ⟨_, List.mem_cons_self, ' ', by decide, by decide⟩
    obtain ⟨asked, info, hinfix, hinfo, -⟩ :=
      hasked (hmissed hchar (by decide +kernel) (by decide +kernel)) Alone.stop_blank.2.1
    exact ⟨asked, info, hinfix, hinfo⟩
  · unfold LeadsOn
    decide +kernel

/-- So a build may be among those that it stops. -/
theorem stopPrevious_not_spares_own :
    ¬ ∀ (s : Scheduler) (keep : Char → Bool) (segments : List String) (number : Nat)
        (name value : String) (server : Server) (w : World) (builds : List RunningBuild),
      keep '/' = false → segments ≠ [] → (∀ step ∈ segments, IsStep step) → w.requests = [] →
      (s.runningBuilds.run server w).1 = .ok builds →
      (∃ build ∈ builds, build.number = number ∧ build.url = s.listedUrl keep segments number) →
      InWireForm s keep segments builds →
      ∀ r, .web r ∈
          ((s.stopPrevious ("/".intercalate segments) number name value).run server w).2.requests →
        ¬ s.StopsListed keep segments number r := by
  intro hspares
  have hsegments : ∀ step ∈ ["my job"], IsStep step := by unfold IsStep; decide
  have hleads : ∀ step ∈ encoded Alone.keepInStep ["my job"], LeadsOn step.toList := by
    unfold LeadsOn
    decide +kernel
  have hpath : (Web.Url.read? (Alone.scheduler.listedUrl Alone.keepInStep ["my job"] 5 ++
      "stop")).map (·.path) = some "/job/my%20job/5/stop" := by decide +kernel
  obtain ⟨request, hrequest, hposts⟩ := List.any_eq_true.1 Alone.stop_blank.2.2
  obtain ⟨u, hu, hupath⟩ := Option.map_eq_some_iff.1 hpath
  cases request with
  | engine => cases hposts
  | web r =>
    rw [Alone.stop] at hrequest
    obtain ⟨hpost, hrpath⟩ : r.method = .post ∧ r.url.path = "/job/my%20job/5/stop" :=
      of_decide_eq_true hposts
    exact hspares Alone.scheduler Alone.keepInStep ["my job"] 5 "PR" "7" (Alone.answers ["my job"])
      Alone.world _ (by decide) (by decide) hsegments rfl
      (eq_ok_of_toOption Alone.stop_blank.1) ⟨_, List.mem_cons_self, rfl, rfl⟩
      (Alone.inWireForm hsegments hleads (by decide +kernel)) r hrequest
      ⟨hpost, u, hu, hrpath.trans hupath.symm⟩

end Scheduler

end ImagePipeline
