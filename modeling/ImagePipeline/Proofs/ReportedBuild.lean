import ImagePipeline.Proofs.JobAddress
import ImagePipeline.Proofs.SchedulerTranscript

/-!
# Builds that executors report

An executor reports a build by its number and its address, and the name of the job is read from the
address: every piece after a piece `job` is a step of the name.  So the pieces that announce steps
must not be steps themselves.  A step `job` announces the piece after it once more, and the name
becomes longer than the job's.

* `length_namesAfterJob`: the names in an address are as many as the steps, and one more for every
  step that announces a name.
* `jobNameOfUrl?_eq_some_iff`: the name of the job is read from its address exactly if none does.
* `reported_build`: then whatever is asked of the build, or told to it, goes to the address that the
  executor reports.
-/

namespace ImagePipeline

open Program

namespace Scheduler

open Decimal (natText)

variable {base : String} {steps pieces last : List String} {step : String} {number : Nat}

/-- The address of a build of a job after a base. -/
def addressAfter (base jobName : String) (number : Nat) : String :=
  base ++ jobPath jobName ++ "/" ++ natText number

/-! ## The names in an address -/

theorem mem_of_mem_namesAfterJob (h : step ∈ namesAfterJob pieces) : step ∈ pieces := by
  fun_induction namesAfterJob pieces with
  | case1 b rest ih =>
    rcases List.mem_cons.1 h with rfl | h
    · exact List.mem_cons_of_mem _ List.mem_cons_self
    · exact List.mem_cons_of_mem _ (ih h)
  | case2 a b rest _ ih => exact List.mem_cons_of_mem _ (ih h)
  | case3 => cases h

/-- Every step of the job is a name, and a step that announces a name makes the piece after it one
once more. -/
theorem length_namesAfterJob (hlast : jobStep ∉ last) (hne : last ≠ []) :
    (namesAfterJob (steps.flatMap (fun step => [jobStep, step]) ++ last)).length =
      steps.length + steps.count jobStep := by
  induction steps with
  | nil =>
    have hnone := namesAfterJob_append hlast []
    rw [List.append_nil] at hnone
    rw [List.flatMap_nil, List.nil_append, hnone]
    rfl
  | cons step steps ih =>
    obtain ⟨next, rest, hrest⟩ : ∃ next rest,
        steps.flatMap (fun step => [jobStep, step]) ++ last = next :: rest :=
      List.exists_cons_of_ne_nil (List.append_ne_nil_of_right_ne_nil _ hne)
    rw [List.flatMap_cons, List.append_assoc]
    show (namesAfterJob (jobStep :: step ::
      (steps.flatMap (fun step => [jobStep, step]) ++ last))).length = _
    rw [namesAfterJob, if_pos rfl, List.length_cons, List.length_cons]
    by_cases hstep : step = jobStep
    · rw [hstep, hrest, namesAfterJob, if_pos rfl, ← hrest, List.length_cons, ih,
        List.count_cons_self]
      omega
    · rw [namesAfterJob_cons_of_ne hstep, ih, List.count_cons_of_ne hstep]
      omega

/-- Steps are got back from the name that they make. -/
theorem intercalate_injective (hsteps : ∀ step ∈ steps, '/' ∉ step.toList) (hne : steps ≠ [])
    (hpieces : ∀ piece ∈ pieces, '/' ∉ piece.toList) (hne' : pieces ≠ [])
    (h : "/".intercalate pieces = "/".intercalate steps) : pieces = steps := by
  rw [← Text.split_intercalate hpieces hne', h, Text.split_intercalate hsteps hne]

/-- The pieces of the address of a build, with the slash after it. -/
theorem split_addressAfter (hne : steps ≠ []) (hsteps : ∀ step ∈ steps, IsStep step) :
    Text.split '/' (addressAfter base ("/".intercalate steps) number ++ "/") =
      Text.split '/' base ++
        (steps.flatMap (fun step => [jobStep, step]) ++ [natText number, ""]) := by
  rw [addressAfter, jobPath_intercalate hsteps hne,
    split_buildUrl base (fun step hstep => (hsteps step hstep).2) number]

/-- The name of the job is read from the address of a build exactly if no step of it announces a
name. -/
theorem jobNameOfUrl?_eq_some_iff (hbase : jobStep ∉ Text.split '/' base) (hne : steps ≠ [])
    (hsteps : ∀ step ∈ steps, IsStep step) :
    jobNameOfUrl? (addressAfter base ("/".intercalate steps) number ++ "/") =
      some ("/".intercalate steps) ↔ jobStep ∉ steps := by
  have hlast : jobStep ∉ [natText number, ""] := by
    simp only [List.mem_cons, List.not_mem_nil, or_false, not_or]
    exact ⟨(natText_ne_jobStep number).symm, by decide⟩
  have hnames : namesAfterJob
      (Text.split '/' (addressAfter base ("/".intercalate steps) number ++ "/")) =
        namesAfterJob (steps.flatMap (fun step => [jobStep, step]) ++ [natText number, ""]) := by
    rw [split_addressAfter hne hsteps, namesAfterJob_append hbase]
  constructor
  · intro hname
    obtain ⟨hne', hname⟩ := jobNameOfUrl?_eq_some hname
    have hslash : ∀ piece ∈ namesAfterJob
        (Text.split '/' (addressAfter base ("/".intercalate steps) number ++ "/")),
        '/' ∉ piece.toList :=
      fun piece hpiece => Text.not_mem_of_mem_split (mem_of_mem_namesAfterJob hpiece)
    have hsame := intercalate_injective (fun step hstep => (hsteps step hstep).2) hne hslash hne'
      hname.symm
    -- A step that announces a name would make one name too many.
    have hlength : (namesAfterJob (Text.split '/'
        (addressAfter base ("/".intercalate steps) number ++ "/"))).length =
          steps.length + steps.count jobStep := by
      rw [hnames, length_namesAfterJob hlast (List.cons_ne_nil _ _)]
    rw [hsame] at hlength
    exact List.count_eq_zero.1 (by omega)
  · intro hjob
    rw [namesAfterJob_announced hjob hlast] at hnames
    obtain ⟨first, rest, hcons⟩ := List.exists_cons_of_ne_nil hne
    rw [jobNameOfUrl?, hnames, hcons]

example : jobNameOfUrl? (addressAfter "http://h" "job/a" 5 ++ "/") = some "job/job/a" := by
  decide +kernel

/-! ## What is asked of a reported build -/

variable {s : Scheduler}

/-- What is known about a build is asked for below its address. -/
theorem buildInfo_eq (s : Scheduler) (jobName : String) (number : Nat) :
    s.buildInfo jobName number =
      ofExcept (s.request .get (addressAfter s.base jobName number ++ "/" ++ "api/json")) >>=
        Fetch.json BuildInfo.ofJson? := by
  rw [String.append_assoc]
  rfl

/-- A build is stopped below its address. -/
theorem stopUrl_eq (s : Scheduler) (jobName : String) (number : Nat) :
    s.stopUrl jobName number = addressAfter s.base jobName number ++ "/" ++ "stop" := by
  rw [String.append_assoc]
  rfl

/-- **Names and addresses of builds.**  Let a build of a job be reported by its address after a base
without a piece `job`.  The name of the job is read from the address exactly if no step of it is
`job`.  Then the build is listed with a name that leads back to the address: it is the base, the
path of that name and the number, with a slash after them; and a scheduler at the base is asked
about the build, and told to stop it, right below the address that was reported. -/
theorem reported_build (hbase : jobStep ∉ Text.split '/' base) (hne : steps ≠ [])
    (hsteps : ∀ step ∈ steps, IsStep step) (number : Nat) :
    (jobNameOfUrl? (addressAfter base ("/".intercalate steps) number ++ "/") =
        some ("/".intercalate steps) ↔ jobStep ∉ steps) ∧
      (jobStep ∉ steps → ∃ build : RunningBuild,
        runningBuild? ⟨some number,
          some (addressAfter base ("/".intercalate steps) number ++ "/")⟩ = some build ∧
        build.number = number ∧
        build.url = addressAfter base ("/".intercalate steps) number ++ "/" ∧
        build.url = base ++ jobPath build.name ++ "/" ++ natText build.number ++ "/" ∧
        ∀ s : Scheduler, s.base = base →
          s.buildInfo build.name build.number =
            ofExcept (s.request .get (build.url ++ "api/json")) >>=
              Fetch.json BuildInfo.ofJson? ∧
          s.stopUrl build.name build.number = build.url ++ "stop") := by
  have hiff : jobNameOfUrl? (addressAfter base ("/".intercalate steps) number ++ "/") =
      some ("/".intercalate steps) ↔ jobStep ∉ steps := jobNameOfUrl?_eq_some_iff hbase hne hsteps
  refine ⟨hiff, fun hjob => ?_⟩
  refine ⟨⟨"/".intercalate steps, number, addressAfter base ("/".intercalate steps) number ++ "/"⟩,
    ?_, rfl, rfl, rfl, ?_⟩
  · rw [runningBuild?]
    show (jobNameOfUrl? (addressAfter base ("/".intercalate steps) number ++ "/")).bind _ = _
    rw [hiff.2 hjob]
    rfl
  · rintro s rfl
    exact ⟨buildInfo_eq s _ _, stopUrl_eq s _ _⟩

/-- A job in a folder, below a path of its own. -/
theorem reported_build_folder :
    jobStep ∉ Text.split '/' "http://h/ci" ∧ (∀ step ∈ ["a b", "ö"], IsStep step) ∧
      jobNameOfUrl? (addressAfter "http://h/ci" "a b/ö" 17 ++ "/") = some "a b/ö" ∧
      ∃ build : RunningBuild, build.url = addressAfter "http://h/ci" "a b/ö" 17 ++ "/" ∧
        ∀ s : Scheduler, s.base = "http://h/ci" →
          s.stopUrl build.name build.number = build.url ++ "stop" := by
  have hbase : jobStep ∉ Text.split '/' "http://h/ci" := by decide +kernel
  have hsteps : ∀ step ∈ ["a b", "ö"], IsStep step := by
    simp only [IsStep]
    decide +kernel
  have hname : "/".intercalate ["a b", "ö"] = "a b/ö" := by decide +kernel
  obtain ⟨hread, hbuild⟩ := reported_build hbase (List.cons_ne_nil _ _) hsteps 17
  rw [hname] at hread hbuild
  have hjob : jobStep ∉ ["a b", "ö"] := by decide
  obtain ⟨build, -, -, hurl, -, hrequests⟩ := hbuild hjob
  exact ⟨hbase, hsteps, hread.2 hjob, build, hurl, fun s hs => (hrequests s hs).2⟩

end Scheduler

end ImagePipeline
