import ImagePipeline.Proofs.DecimalDigits
import ImagePipeline.Proofs.WireAddress
import ImagePipeline.Scheduler.Basic

/-!
# Addresses of jobs

A job is named by the steps of a path.  The address of one of its builds has the same steps, each
announced by a step of its own, and the number of the build after them.

* `Scheduler.stopUrl_intercalate`: the address that stops a build, by the steps of the job.
* `Scheduler.stopPath_injective`: after one base, builds whose steps are sent as they are have
  different addresses on the wire.
* `Scheduler.jobNameOfUrl?_listedUrl`: the name read from an address is made of the steps in it.
-/

namespace ImagePipeline

namespace Scheduler

open Web.Url (IsWireChar IsWireStep IsWireEnd LeadsOn IsBase)
open Decimal (natChars natText)

variable {s : Scheduler} {steps steps' : List String} {number number' : Nat}

/-! ## The steps of an address -/

/-- The steps of a job in an address, each announced. -/
def announced (steps : List String) : List (List Char) :=
  steps.flatMap fun step => [jobStep.toList, step.toList]

/-- The steps of the address that stops a build, after the base. -/
def stopSteps (steps : List String) (number : Nat) : List (List Char) :=
  announced steps ++ [natChars number, "stop".toList]

theorem announced_injective {last last' : List (List Char)}
    (hlength : last.length = 2) (hlength' : last'.length = 2)
    (h : announced steps ++ last = announced steps' ++ last') : steps = steps' ∧ last = last' := by
  induction steps generalizing steps' with
  | nil =>
    cases steps' with
    | nil => exact ⟨rfl, h⟩
    | cons step' steps' =>
      have hcount := congrArg List.length h
      simp [announced] at hcount
      omega
  | cons step steps ih =>
    cases steps' with
    | nil =>
      have hcount := congrArg List.length h
      simp [announced] at hcount
      omega
    | cons step' steps' =>
      obtain ⟨-, hrest⟩ := List.cons.inj h
      obtain ⟨hstep, hrest⟩ := List.cons.inj hrest
      obtain ⟨rfl, hlast⟩ := ih hrest
      rw [String.toList_inj] at hstep
      exact ⟨by rw [hstep], hlast⟩

/-- A step of a job's name. -/
def IsStep (step : String) : Prop := step ≠ "" ∧ '/' ∉ step.toList

theorem jobPath_intercalate (hsteps : ∀ step ∈ steps, IsStep step) (hne : steps ≠ []) :
    jobPath ("/".intercalate steps) = String.join (steps.map fun step => "/job/" ++ step) := by
  have hfilter : steps.filter (· ≠ "") = steps :=
    List.filter_eq_self.2 fun step hstep => decide_eq_true (hsteps step hstep).1
  rw [jobPath, Text.split_intercalate (fun step hstep => (hsteps step hstep).2) hne, hfilter]

/-- The path of a job with more steps after it. -/
theorem join_append_joinChars (front : String) (steps : List String) {last : List (List Char)}
    (hlast : last ≠ []) :
    front ++ String.join (steps.map fun step => "/job/" ++ step) ++
        String.ofList ('/' :: Text.joinChars '/' last) =
      front ++ "/" ++ String.ofList (Text.joinChars '/' (announced steps ++ last)) := by
  have hjob : (String.join (steps.map fun step => "/job/" ++ step)).toList =
      (announced steps).flatMap ('/' :: ·) := by
    rw [String.toList_join, announced, List.flatMap_map, List.flatMap_assoc]
    simp [jobStep]
  have hjoin := Text.cons_joinChars_append '/' (announced steps) hlast
  rw [← String.toList_inj]
  simp only [String.toList_append, String.toList_ofList, List.append_assoc, hjob]
  rw [show "/".toList = ['/'] from rfl, List.singleton_append, hjoin]

/-- The address that stops a build, by the steps of the job. -/
theorem stopUrl_intercalate (hsteps : ∀ step ∈ steps, IsStep step) (hne : steps ≠ []) :
    s.stopUrl ("/".intercalate steps) number =
      s.base ++ "/" ++ String.ofList (Text.joinChars '/' (stopSteps steps number)) := by
  rw [stopSteps, ← join_append_joinChars s.base steps (List.cons_ne_nil _ _), stopUrl, buildUrl,
    jobPath_intercalate hsteps hne, ← String.toList_inj]
  simp [natText, Text.joinChars]

/-! ## Addresses on the wire -/

theorem leadsOn_natChars (n : Nat) : LeadsOn (natChars n) := by
  obtain ⟨d, hd, rest, hcons⟩ := Decimal.exists_natChars n
  have hlower : ∀ d < 10, (Decimal.digitChar d).toLower ≠ '.' ∧
      (Decimal.digitChar d).toLower ≠ '%' := by decide
  obtain ⟨hdot, hpercent⟩ := hlower d hd
  have hne {text : String} {c : Char} {cs : List Char} (htext : text.toList = c :: cs)
      (hc : (Decimal.digitChar d).toLower ≠ c) :
      String.ofList ((natChars n).map Char.toLower) ≠ text := by
    intro heq
    rw [← String.toList_inj, String.toList_ofList, htext, hcons, List.map_cons] at heq
    exact hc (List.cons.inj heq).1
  constructor
  · rw [Web.Url.isDot, List.contains_eq_mem, decide_eq_false_iff_not]
    simp only [List.mem_cons, List.not_mem_nil, or_false, not_or]
    exact ⟨hne rfl hdot, hne rfl hpercent⟩
  · rw [Web.Url.isDoubleDot, List.contains_eq_mem, decide_eq_false_iff_not]
    simp only [List.mem_cons, List.not_mem_nil, or_false, not_or]
    exact ⟨hne rfl hdot, hne rfl hdot, hne rfl hpercent, hne rfl hpercent⟩

theorem isWireStep_natChars (n : Nat) : IsWireStep (natChars n) := by
  have hdigit : ∀ d < 10, (Web.Url.keepInPath (Decimal.digitChar d) = true ∧
      Decimal.digitChar d ≠ '\\') ∧ Decimal.digitChar d ≠ '/' := by decide
  refine ⟨?_, fun c hc => ?_, fun hslash => ?_, leadsOn_natChars n⟩
  · obtain ⟨d, -, rest, hcons⟩ := Decimal.exists_natChars n
    rw [hcons]
    exact List.cons_ne_nil _ _
  · obtain ⟨d, hd, rfl⟩ := Decimal.exists_of_mem_natChars hc
    exact (hdigit d hd).1
  · obtain ⟨d, hd, hc⟩ := Decimal.exists_of_mem_natChars hslash
    exact (hdigit d hd).2 hc.symm

theorem isWireStep_job : IsWireStep jobStep.toList := by
  have hchars : ∀ c ∈ jobStep.toList, IsWireChar c := Web.Url.isWireChar_of_all (by decide)
  exact ⟨by decide, hchars, by decide, by decide, by decide⟩

theorem isWireStep_stop : IsWireStep "stop".toList := by
  have hchars : ∀ c ∈ "stop".toList, IsWireChar c := Web.Url.isWireChar_of_all (by decide)
  exact ⟨by decide, hchars, by decide, by decide, by decide⟩

theorem isWireStep_of_mem_stopSteps (hsteps : ∀ step ∈ steps, IsWireStep step.toList) :
    ∀ step ∈ stopSteps steps number, IsWireStep step := by
  intro step hstep
  rcases List.mem_append.1 hstep with hstep | hstep
  · obtain ⟨name, hname, hstep⟩ := List.mem_flatMap.1 hstep
    simp only [List.mem_cons, List.not_mem_nil, or_false] at hstep
    rcases hstep with rfl | rfl
    · exact isWireStep_job
    · exact hsteps name hname
  · simp only [List.mem_cons, List.not_mem_nil, or_false] at hstep
    rcases hstep with rfl | rfl
    · exact isWireStep_natChars number
    · exact isWireStep_stop

theorem isWireEnd_joinChars {pieces : List (List Char)} (hne : pieces ≠ [])
    (h : ∀ piece ∈ pieces, IsWireStep piece) : IsWireEnd (Text.joinChars '/' pieces) := by
  refine ⟨fun c hc => ?_, fun step hstep => ?_⟩
  · rcases Text.mem_joinChars hc with rfl | ⟨piece, hpiece, hc⟩
    · exact ⟨by decide, by decide⟩
    · exact (h piece hpiece).isWireChar c hc
  · rw [Text.splitChars_joinChars hne fun piece hpiece => (h piece hpiece).not_slash] at hstep
    exact (h step hstep).leadsOn

theorem stopSteps_ne_nil (steps : List String) (number : Nat) : stopSteps steps number ≠ [] :=
  List.append_ne_nil_of_right_ne_nil _ (List.cons_ne_nil _ _)

theorem isStep_of_isWireStep {step : String} (h : IsWireStep step.toList) : IsStep step := by
  refine ⟨?_, h.not_slash⟩
  rintro rfl
  exact h.ne_nil rfl

/-- After one base, builds whose steps are sent as they are have different addresses. -/
theorem stopPath_injective (hbase : IsBase s.base) (hne : steps ≠ []) (hne' : steps' ≠ [])
    (hsteps : ∀ step ∈ steps, IsWireStep step.toList)
    (hsteps' : ∀ step ∈ steps', IsWireStep step.toList) {u u' : Web.Url}
    (hread : Web.Url.read? (s.stopUrl ("/".intercalate steps) number) = some u)
    (hread' : Web.Url.read? (s.stopUrl ("/".intercalate steps') number') = some u')
    (hpath : u.path = u'.path) : steps = steps' ∧ number = number' := by
  obtain ⟨front, hfront⟩ := hbase.exists_path_eq
  have hsent {steps : List String} {number : Nat} {u : Web.Url} (hne : steps ≠ [])
      (hsteps : ∀ step ∈ steps, IsWireStep step.toList)
      (hread : Web.Url.read? (s.stopUrl ("/".intercalate steps) number) = some u) :
      u.path.toList = front ++ '/' :: Text.joinChars '/' (stopSteps steps number) := by
    have hend := isWireEnd_joinChars (stopSteps_ne_nil steps number)
      (isWireStep_of_mem_stopSteps hsteps)
    obtain ⟨v, hv, hvpath⟩ := hfront (String.ofList (Text.joinChars '/' (stopSteps steps number)))
      (by rwa [String.toList_ofList])
    rw [stopUrl_intercalate (fun step hstep => isStep_of_isWireStep (hsteps step hstep)) hne,
      hv] at hread
    cases hread
    rw [hvpath, String.toList_ofList]
  have hjoin : Text.joinChars '/' (stopSteps steps number) =
      Text.joinChars '/' (stopSteps steps' number') := by
    have hlists := congrArg String.toList hpath
    rw [hsent hne hsteps hread, hsent hne' hsteps' hread'] at hlists
    exact (List.cons.inj (List.append_cancel_left hlists)).2
  have hpieces : stopSteps steps number = stopSteps steps' number' := by
    rw [← Text.splitChars_joinChars (stopSteps_ne_nil steps number) fun step hstep =>
        (isWireStep_of_mem_stopSteps hsteps step hstep).not_slash, hjoin,
      Text.splitChars_joinChars (stopSteps_ne_nil steps' number') fun step hstep =>
        (isWireStep_of_mem_stopSteps hsteps' step hstep).not_slash]
  obtain ⟨hsame, hlast⟩ := announced_injective rfl rfl hpieces
  exact ⟨hsame, Decimal.natChars_injective (List.cons.inj hlast).1⟩

/-! ## The address that the scheduler gives -/

variable {keep : Char → Bool}

/-- The steps of a job in the addresses that the scheduler gives, with all characters but those kept
percent-encoded. -/
def encoded (keep : Char → Bool) (steps : List String) : List String :=
  steps.map fun step => String.ofList (Web.Url.percentEncode keep step.toList)

/-- The address that the scheduler gives to a build. -/
def listedUrl (s : Scheduler) (keep : Char → Bool) (steps : List String) (number : Nat) : String :=
  s.base ++ String.join ((encoded keep steps).map fun step => "/job/" ++ step) ++ "/" ++
    natText number ++ "/"

/-- Steps whose characters are all kept are given as they are. -/
theorem encoded_of_keep (h : ∀ step ∈ steps, ∀ c ∈ step.toList, keep c = true) :
    encoded keep steps = steps := by
  refine (List.map_congr_left fun step hstep => ?_).trans (List.map_id _)
  rw [Web.Url.percentEncode_of_keep (h step hstep), String.ofList_toList]
  rfl

/-- Steps with a character that is not kept are not. -/
theorem encoded_ne {step : String} {c : Char} (hstep : step ∈ steps) (hc : c ∈ step.toList)
    (hkeep : keep c = false) : encoded keep steps ≠ steps := by
  intro heq
  have hsame : String.ofList (Web.Url.percentEncode keep step.toList) = step :=
    List.map_inj_left.1 (heq.trans (List.map_id steps).symm) step hstep
  have hlength := Web.Url.length_lt_percentEncode hc hkeep
  rw [← String.toList_ofList (l := Web.Url.percentEncode keep step.toList), hsame] at hlength
  exact Nat.lt_irrefl _ hlength

theorem not_slash_of_mem_encoded (hkeep : keep '/' = false) :
    ∀ step ∈ encoded keep steps, '/' ∉ step.toList := by
  intro step hstep hslash
  obtain ⟨name, -, rfl⟩ := List.mem_map.1 hstep
  rw [String.toList_ofList] at hslash
  rcases Web.Url.mem_percentEncode hslash with ⟨-, h⟩ | h | ⟨n, hn, h⟩
  · rw [hkeep] at h
    cases h
  · exact absurd h (by decide)
  · have hdigits : ∀ n < 16, '/' ≠ Web.Url.hexDigit n := by decide
    exact hdigits n hn h

theorem isStep_of_mem_encoded (hkeep : keep '/' = false) (hsteps : ∀ step ∈ steps, step ≠ "") :
    ∀ step ∈ encoded keep steps, IsStep step := by
  intro step hstep
  refine ⟨?_, not_slash_of_mem_encoded hkeep step hstep⟩
  obtain ⟨name, hname, rfl⟩ := List.mem_map.1 hstep
  intro hempty
  have hlength := Web.Url.length_le_percentEncode keep name.toList
  rw [← String.toList_ofList (l := Web.Url.percentEncode keep name.toList), hempty] at hlength
  exact hsteps name hname (String.toList_eq_nil_iff.1 (List.length_eq_zero_iff.1
    (Nat.le_zero.1 hlength)))

/-- The address that stops a build is the one that the scheduler gives to it, with a step more. -/
theorem stopUrl_encoded (hkeep : keep '/' = false) (hsteps : ∀ step ∈ steps, step ≠ "")
    (hne : steps ≠ []) :
    s.stopUrl ("/".intercalate (encoded keep steps)) number =
      s.listedUrl keep steps number ++ "stop" := by
  have hencoded : encoded keep steps ≠ [] := by simpa [encoded] using hne
  rw [stopUrl, buildUrl, jobPath_intercalate (isStep_of_mem_encoded hkeep hsteps) hencoded,
    listedUrl, show "/stop" = "/" ++ "stop" from rfl, ← String.append_assoc]

theorem jobNameOfUrl?_eq_some {url name : String} (h : jobNameOfUrl? url = some name) :
    namesAfterJob (Text.split '/' url) ≠ [] ∧
      name = "/".intercalate (namesAfterJob (Text.split '/' url)) := by
  rw [jobNameOfUrl?] at h
  split at h
  next => cases h
  next names hnames =>
    cases h
    exact ⟨hnames, rfl⟩

theorem namesAfterJob_cons_of_ne {step : String} (h : step ≠ jobStep) (rest : List String) :
    namesAfterJob (step :: rest) = namesAfterJob rest := by
  cases rest with
  | nil => rfl
  | cons next rest => rw [namesAfterJob, if_neg h]

theorem namesAfterJob_append {first : List String} (h : jobStep ∉ first) (rest : List String) :
    namesAfterJob (first ++ rest) = namesAfterJob rest := by
  induction first with
  | nil => rfl
  | cons step first ih =>
    rw [List.mem_cons, not_or] at h
    rw [List.cons_append, namesAfterJob_cons_of_ne (Ne.symm h.1), ih h.2]

/-- Every name announced is read, as long as none of them announces another. -/
theorem namesAfterJob_announced (h : jobStep ∉ steps) {last : List String}
    (hlast : jobStep ∉ last) :
    namesAfterJob (steps.flatMap (fun step => [jobStep, step]) ++ last) = steps := by
  induction steps with
  | nil =>
    have hnone := namesAfterJob_append hlast []
    rw [List.append_nil] at hnone
    exact hnone
  | cons step steps ih =>
    rw [List.mem_cons, not_or] at h
    rw [List.flatMap_cons, List.append_assoc]
    show namesAfterJob (jobStep :: step ::
      (steps.flatMap (fun step => [jobStep, step]) ++ last)) = _
    rw [namesAfterJob, if_pos rfl, namesAfterJob_cons_of_ne (Ne.symm h.1), ih h.2]

/-- A number announces no name. -/
theorem natText_ne_jobStep (number : Nat) : natText number ≠ jobStep := by
  intro heq
  obtain ⟨d, hd, rest, hcons⟩ := Decimal.exists_natChars number
  have hletter : ∀ d < 10, Decimal.digitChar d ≠ 'j' := by decide
  rw [← String.toList_inj, natText, String.toList_ofList, hcons] at heq
  exact hletter d hd (List.cons.inj heq).1

/-- The pieces of an address of a build: those of the base, the steps of the job, each announced,
and the number with nothing after it. -/
theorem split_buildUrl (base : String) (hsteps : ∀ step ∈ steps, '/' ∉ step.toList)
    (number : Nat) :
    Text.split '/' (base ++ String.join (steps.map fun step => "/job/" ++ step) ++ "/" ++
        natText number ++ "/") =
      Text.split '/' base ++
        (steps.flatMap (fun step => [jobStep, step]) ++ [natText number, ""]) := by
  have hurl : base ++ String.join (steps.map fun step => "/job/" ++ step) ++ "/" ++
      natText number ++ "/" = base ++ "/" ++
        String.ofList (Text.joinChars '/' (announced steps ++ [natChars number, []])) := by
    rw [← join_append_joinChars base _ (List.cons_ne_nil _ _), ← String.toList_inj]
    simp [natText, Text.joinChars]
  have hslash : ∀ piece ∈ announced steps ++ [natChars number, []], '/' ∉ piece := by
    intro piece hpiece
    rcases List.mem_append.1 hpiece with hpiece | hpiece
    · obtain ⟨step, hstep, hpiece⟩ := List.mem_flatMap.1 hpiece
      simp only [List.mem_cons, List.not_mem_nil, or_false] at hpiece
      rcases hpiece with rfl | rfl
      · exact isWireStep_job.not_slash
      · exact hsteps step hstep
    · simp only [List.mem_cons, List.not_mem_nil, or_false] at hpiece
      rcases hpiece with rfl | rfl
      · exact (isWireStep_natChars number).not_slash
      · exact List.not_mem_nil
  rw [hurl, show "/" = String.singleton '/' from rfl, Text.split_append_append,
    Text.split_ofList_joinChars
      (List.append_ne_nil_of_right_ne_nil _ (List.cons_ne_nil _ _)) hslash,
    List.map_append, announced, List.map_flatMap]
  simp [natText]

/-- The names in the address that the scheduler gives are the steps of the job in it. -/
theorem namesAfterJob_listedUrl (hkeep : keep '/' = false)
    (hbase : jobStep ∉ Text.split '/' s.base) (hsteps : jobStep ∉ encoded keep steps) :
    namesAfterJob (Text.split '/' (s.listedUrl keep steps number)) = encoded keep steps := by
  rw [listedUrl, split_buildUrl s.base (not_slash_of_mem_encoded hkeep) number,
    namesAfterJob_append hbase, namesAfterJob_announced hsteps]
  simp only [List.mem_cons, List.not_mem_nil, or_false, not_or]
  exact ⟨(natText_ne_jobStep number).symm, by decide⟩

/-- So the name read from it is made of them. -/
theorem jobNameOfUrl?_listedUrl (hkeep : keep '/' = false) (hne : steps ≠ [])
    (hbase : jobStep ∉ Text.split '/' s.base) (hsteps : jobStep ∉ encoded keep steps) :
    jobNameOfUrl? (s.listedUrl keep steps number) =
      some ("/".intercalate (encoded keep steps)) := by
  obtain ⟨first, rest, hcons⟩ : ∃ first rest, encoded keep steps = first :: rest :=
    List.exists_cons_of_ne_nil (by simpa [encoded] using hne)
  rw [jobNameOfUrl?, namesAfterJob_listedUrl hkeep hbase hsteps, hcons]

end Scheduler

end ImagePipeline
