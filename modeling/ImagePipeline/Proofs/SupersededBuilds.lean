import ImagePipeline.Proofs.FetchedValue
import ImagePipeline.Proofs.SendableRequest

/-!
# Which builds are stopped

A build that stops those before it lists what runs on the executors, then goes through the list in
order.  It asks for each build but itself what that was started for, and stops it if that is the
value given, with a crumb if it gets one.  The first failure ends it, but for a crumb that it does
not get.

* `Scheduler.StartedWith`: what a build has to be started with to be stopped.
* `Scheduler.listed`: the builds in a list of computers.
* `Scheduler.Visit`: what is exchanged over one build, and `Scheduler.Visit.Conducted`, what comes
  of it.
* `Scheduler.rounds_of_yields_stopMatching`: the builds are visited in order until one visit fails.
* `Scheduler.stopPrevious_log`: so what is exchanged, and which builds are stopped, is decided by
  the answers on the builds.
* `Scheduler.stopPrevious_not_endsWithFailure`: a request that cannot be sent ends a run, too, but
  is not the last that is exchanged.
-/

namespace ImagePipeline

open Files (Tree)
open Program

namespace Scheduler

variable {s : Scheduler} {job name value : String} {number : Nat} {t t' : Tree}
  {es : List Exchange} {error : ServiceError}

/-! ## What a build was started with -/

/-- One of the actions whose class ends in a certain way has the parameter with the value for its
first one. -/
def StartedWith (info : BuildInfo) (name value : String) : Prop :=
  ∃ action ∈ info.actions,
    (∃ kind, action.kind = some kind ∧ "ParametersAction".toList <:+ kind.toList) ∧
      ∃ parameter rest, action.parameters = parameter :: rest ∧ parameter.name = name ∧
        parameter.valueText? = some value

theorem endsWith_iff {finish text : String} :
    Text.endsWith finish text = true ↔ finish.toList <:+ text.toList := by
  rw [Text.endsWith, Option.isSome_iff_exists, ← List.reverse_prefix]
  exact exists_congr fun rest => Text.afterPrefix?_eq_some_iff.trans eq_comm

theorem startedFor_iff {info : BuildInfo} :
    info.startedFor name value = true ↔ StartedWith info name value := by
  have hholds (action : BuildAction) : action.holdsParameters = true ↔
      ∃ kind, action.kind = some kind ∧ "ParametersAction".toList <:+ kind.toList := by
    rw [BuildAction.holdsParameters, Option.any_eq_true]
    exact exists_congr fun kind => and_congr_right fun _ => endsWith_iff
  simp only [BuildInfo.startedFor, BuildInfo.firstParameters, List.any_eq_true, List.mem_filterMap,
    List.mem_filter, hholds, Bool.and_eq_true, decide_eq_true_iff, StartedWith]
  constructor
  · rintro ⟨parameter, ⟨action, ⟨haction, hkind⟩, hfirst⟩, hname, hvalue⟩
    obtain ⟨rest, hparameters⟩ := List.head?_eq_some_iff.1 hfirst
    exact ⟨action, haction, hkind, parameter, rest, hparameters, hname, hvalue⟩
  · rintro ⟨action, haction, hkind, parameter, rest, hparameters, hname, hvalue⟩
    exact ⟨parameter, ⟨action, ⟨haction, hkind⟩, by rw [hparameters]; rfl⟩, hname, hvalue⟩

instance (info : BuildInfo) (name value : String) : Decidable (StartedWith info name value) :=
  decidable_of_iff _ startedFor_iff

/-! ## The list of executors -/

/-- A computer, with what its executors run. -/
structure Computer where
  executors : List (Option Executable)
  oneOff : List (Option Executable)

/-- Reads a computer with its executors apart. -/
def readRow (j : Json) : Option Computer := do
  match ← j.fields? ["executors", "oneOffExecutors"] with
  | [executors, oneOff] =>
    return ⟨← executors.withDefault [] (Json.list readExecutor),
      ← oneOff.withDefault [] (Json.list readExecutor)⟩
  | _ => none

/-- Reads all computers. -/
def readRows (j : Json) : Option (List Computer) := do
  match ← j.fields? ["computer"] with
  | [computers] => computers.withDefault [] (Json.list readRow)
  | _ => none

/-- The builds on some computers, in order: for each those on its executors, then those on its
one-off executors. -/
def listed (computers : List Computer) : List RunningBuild :=
  computers.flatMap fun computer =>
    (computer.executors ++ computer.oneOff).filterMap fun executable =>
      executable.bind runningBuild?

/-- A build is listed with its number, an address, and the name of the job in that address. -/
theorem runningBuild?_eq_some_iff {executable : Executable} {build : RunningBuild} :
    runningBuild? executable = some build ↔ executable.number = some build.number ∧
      executable.url = some build.url ∧ jobNameOfUrl? build.url = some build.name := by
  unfold runningBuild?
  simp only [Option.bind_eq_bind, Option.bind_eq_some_iff]
  constructor
  · rintro ⟨number, hnumber, url, hurl, job, hjob, hbuild⟩
    cases hbuild
    exact ⟨hnumber, hurl, hjob⟩
  · rintro ⟨hnumber, hurl, hjob⟩
    exact ⟨_, hnumber, _, hurl, _, hjob, rfl⟩

theorem readComputer_eq (j : Json) :
    readComputer j = (readRow j).map fun computer => computer.executors ++ computer.oneOff := by
  unfold readComputer readRow
  cases j.fields? ["executors", "oneOffExecutors"] with
  | none => rfl
  | some fields =>
    rcases fields with _ | ⟨executors, _ | ⟨oneOff, _ | _⟩⟩ <;> try rfl
    dsimp only [Option.bind_eq_bind, Option.bind_some]
    cases executors.withDefault [] (Json.list readExecutor) with
    | none => rfl
    | some regular => cases oneOff.withDefault [] (Json.list readExecutor) <;> rfl

theorem mapM_map {α β : Type} {f : Json → Option α} {g : α → β} {h : Json → Option β}
    (hh : ∀ j, h j = (f j).map g) (items : List Json) :
    items.mapM h = (items.mapM f).map (·.map g) := by
  induction items with
  | nil => rfl
  | cons j items ih =>
    rw [List.mapM_cons, List.mapM_cons, hh, ih]
    cases f j with
    | none => rfl
    | some a => cases items.mapM f <;> rfl

theorem readComputers_eq (j : Json) :
    readComputers j = (readRows j).map (·.flatMap fun computer =>
      computer.executors ++ computer.oneOff) := by
  have hlist (j : Json) : Json.list readComputer j =
      (Json.list readRow j).map (·.map fun computer => computer.executors ++ computer.oneOff) := by
    unfold Json.list
    cases j.items? with
    | none => rfl
    | some items => exact mapM_map readComputer_eq items
  unfold readComputers readRows
  cases j.fields? ["computer"] with
  | none => rfl
  | some fields =>
    rcases fields with _ | ⟨computers, _ | _⟩ <;> try rfl
    dsimp only [Option.bind_eq_bind, Option.bind_some]
    cases computers with
    | given j =>
      dsimp only [Json.Field.withDefault]
      rw [hlist]
      cases Json.list readRow j with
      | none => rfl
      | some rows => simp [List.flatMap_def]
    | omitted => rfl
    | cutOff => rfl

/-! ## What is asked -/

/-- The address of what is known about a build. -/
def infoUrl (s : Scheduler) (build : RunningBuild) : String :=
  s.buildUrl build.name build.number ++ "/api/json"

/-- The address of crumbs. -/
def crumbUrl (s : Scheduler) : String := s.base ++ "/crumbIssuer/api/json"

/-- What is exchanged to get something from the scheduler: one request, redirections aside. -/
def Gets (s : Scheduler) (url : String) (es : List Exchange) : Prop :=
  ∃ r, s.request .get url = .ok r ∧ Fetch.Followed r es

/-- The scheduler takes the order to stop a build, or points to a page about it. -/
def Accepted (es : List Exchange) : Prop :=
  ∃ response, Fetch.Settled es response ∧
    (Fetch.isSuccess response.status || Fetch.isRedirection response.status) = true

theorem gets_of_yields {α : Type} {read : Json → Option α} {url : String}
    {res : Except ServiceError α} (hurl : ∃ r, s.request .get url = .ok r)
    (h : (ofExcept (s.request .get url) >>= Fetch.json read).Yields t es t' res) :
    s.Gets url es ∧ ∀ a, res = .ok a ↔ Fetch.Delivers read es a := by
  obtain ⟨r, hr⟩ := hurl
  rcases yields_ofExcept_bind.1 h with ⟨error, herror, -⟩ | ⟨r', hr', h₁⟩
  · rw [hr] at herror
    cases herror
  · obtain ⟨hes, hres⟩ := Fetch.json_of_yields (sendable_of_request hr') h₁
    exact ⟨⟨r', hr', hes⟩, hres⟩

theorem gets_of_yields_crumb {res : Except ServiceError (Option (String × String))}
    (hurl : ∃ r, s.request .get s.crumbUrl = .ok r) (h : s.crumb.Yields t es t' res) :
    ∃ crumb, res = .ok crumb ∧ s.Gets s.crumbUrl es ∧
      ∀ c, crumb = some c ↔ Fetch.Delivers readCrumb es c := by
  unfold crumb at h
  obtain ⟨r₀, es₁, t₁, es₂, h₁, h₂, rfl⟩ := yields_attempt_bind.1 h
  obtain ⟨rfl, -, rfl⟩ := yields_pure.1 h₂
  obtain ⟨hes, hres⟩ := gets_of_yields hurl h₁
  rw [List.append_nil]
  refine ⟨r₀.toOption, rfl, hes, fun c => ?_⟩
  rw [← hres]
  cases r₀ <;> simp [Except.toOption]

/-- An order to stop is sent if it can be, and succeeds if it is accepted. -/
theorem order_of_yields {r : Web.Request} {url : String} {res : Except ServiceError Unit}
    (h : (Fetch.send r >>= fun response =>
      if Fetch.isSuccess response.status || Fetch.isRedirection response.status then pure ()
      else fail (.status url response.status)).Yields t es t' res) :
    ∃ sent, (Fetch.send r).Yields t es t' sent ∧
      ((r.sendable = false ∧ es = [] ∧ res ≠ .ok ()) ∨
        (Fetch.Followed r es ∧ (res = .ok () ↔ Accepted es))) := by
  have hend : (Fetch.send r >>= fun response => done
      (if Fetch.isSuccess response.status || Fetch.isRedirection response.status then .ok ()
        else .error (.status url response.status))).Yields t es t' res := by
    convert h using 1
    refine bind_congr fun response => ?_
    split <;> rfl
  obtain ⟨sent, hsent, rfl⟩ := yields_bind_done.1 hend
  refine ⟨sent, hsent, ?_⟩
  cases hsend : r.sendable with
  | false =>
    rw [Fetch.send, hsend, if_neg Bool.false_ne_true] at hsent
    obtain ⟨rfl, -, rfl⟩ := yields_fail.1 hsent
    refine .inl ⟨rfl, rfl, fun hok => ?_⟩
    cases hok
  | true =>
    obtain ⟨hposts, hsettled⟩ := Fetch.send_of_yields hsend hsent
    refine .inr ⟨hposts, ?_⟩
    unfold Accepted
    simp only [← hsettled]
    cases sent with
    | error error => simp [Except.bind]
    | ok response =>
      by_cases hok : (Fetch.isSuccess response.status || Fetch.isRedirection response.status) = true
      · exact ⟨fun _ => ⟨response, rfl, hok⟩, fun _ => if_pos hok⟩
      · refine ⟨fun h => ?_, ?_⟩
        · rw [Except.bind, if_neg hok] at h
          cases h
        · rintro ⟨_, ⟨⟩, h⟩
          exact absurd h hok

/-- Stopping a build asks for a crumb, whatever comes of that, and then tells the build to stop if
the crumb can be sent. -/
theorem stopping_of_yields {build : RunningBuild} {res : Except ServiceError Unit}
    (hcrumb : ∃ r, s.request .get s.crumbUrl = .ok r)
    (hstop : ∃ r, s.request .post (s.stopUrl build.name build.number) = .ok r)
    (h : (s.stopBuild build.name build.number).Yields t es t' res) :
    ∃ crumbs posts crumb r, es = crumbs ++ posts ∧ s.Gets s.crumbUrl crumbs ∧
      (∀ c, crumb = some c ↔ Fetch.Delivers readCrumb crumbs c) ∧
      s.request .post (s.stopUrl build.name build.number) = .ok r ∧
      (((stopRequest crumb r).sendable = false ∧ posts = [] ∧ res ≠ .ok ()) ∨
        (Fetch.Followed (stopRequest crumb r) posts ∧ (res = .ok () ↔ Accepted posts))) := by
  unfold stopBuild at h
  dsimp only at h
  rcases yields_bind.1 h with ⟨error, h₁, rfl⟩ | ⟨crumb, crumbs, t₁, posts, h₁, h₂, rfl⟩
  · obtain ⟨crumb, hok, -⟩ := gets_of_yields_crumb hcrumb h₁
    cases hok
  obtain ⟨_, hok, hcrumbs, hcrumb⟩ := gets_of_yields_crumb hcrumb h₁
  cases hok
  obtain ⟨r₀, hr₀⟩ := hstop
  rcases yields_ofExcept_bind.1 h₂ with ⟨error, herror, -⟩ | ⟨r, hr, h₃⟩
  · rw [hr₀] at herror
    cases herror
  obtain ⟨-, -, hend⟩ := order_of_yields h₃
  exact ⟨crumbs, posts, crumb, r, rfl, hcrumbs, hcrumb, hr, hend⟩

/-! ## Visits -/

/-- What is exchanged over a listed build. -/
structure Visit where
  build : RunningBuild
  /-- What is learnt of the build. -/
  info : Option BuildInfo
  /-- The exchanges for that. -/
  infos : List Exchange
  /-- The exchanges for a crumb. -/
  crumbs : List Exchange
  /-- The exchanges that tell the build to stop. -/
  posts : List Exchange

namespace Visit

/-- The exchanges of a visit, in order. -/
def exchanges (visit : Visit) : List Exchange := visit.infos ++ (visit.crumbs ++ visit.posts)

/-- The build was started with the value, as far as is learnt of it. -/
def Matches (name value : String) (visit : Visit) : Prop :=
  ∃ info, visit.info = some info ∧ StartedWith info name value

instance (name value : String) : DecidablePred (Matches name value) := fun visit =>
  decidable_of_iff (visit.info.any fun info => decide (StartedWith info name value)) <| by
    rw [Option.any_eq_true, Matches]
    exact exists_congr fun info => and_congr_right fun _ => decide_eq_true_iff

/-- The builds that were started with the value. -/
def matching (name value : String) (visits : List Visit) : List RunningBuild :=
  (visits.filter (Matches name value)).map build

theorem matching_cons_of_matches {visit : Visit} (h : Matches name value visit)
    (visits : List Visit) :
    matching name value (visit :: visits) = visit.build :: matching name value visits := by
  simp [matching, h]

theorem matching_cons_of_not {visit : Visit} (h : ¬ Matches name value visit)
    (visits : List Visit) :
    matching name value (visit :: visits) = matching name value visits := by
  simp [matching, h]

/-- The ways in which a visit can go, and what comes of them. -/
inductive Conducted (s : Scheduler) (name value : String) : Visit → Except ServiceError Unit → Prop
  /-- Nothing is learnt of the build. -/
  | unknown {build : RunningBuild} {infos : List Exchange} {error : ServiceError}
      (hinfos : s.Gets (s.infoUrl build) infos)
      (hinfo : ∀ info, ¬ Fetch.Delivers BuildInfo.ofJson? infos info) :
    Conducted s name value ⟨build, none, infos, [], []⟩ (.error error)
  /-- The build was started with something else. -/
  | spared {build : RunningBuild} {info : BuildInfo} {infos : List Exchange}
      (hinfos : s.Gets (s.infoUrl build) infos)
      (hinfo : Fetch.Delivers BuildInfo.ofJson? infos info)
      (hother : ¬ StartedWith info name value) :
    Conducted s name value ⟨build, some info, infos, [], []⟩ (.ok ())
  /-- The build is to stop, but the crumb is none that a header can have. -/
  | unsent {build : RunningBuild} {info : BuildInfo} {infos crumbs : List Exchange}
      {crumb : Option (String × String)} {r : Web.Request} {error : ServiceError}
      (hinfos : s.Gets (s.infoUrl build) infos)
      (hinfo : Fetch.Delivers BuildInfo.ofJson? infos info) (hstarted : StartedWith info name value)
      (hcrumbs : s.Gets s.crumbUrl crumbs)
      (hcrumb : ∀ c, crumb = some c ↔ Fetch.Delivers readCrumb crumbs c)
      (hr : s.request .post (s.stopUrl build.name build.number) = .ok r)
      (hsend : (stopRequest crumb r).sendable = false) :
    Conducted s name value ⟨build, some info, infos, crumbs, []⟩ (.error error)
  /-- The build is told to stop. -/
  | told {build : RunningBuild} {info : BuildInfo} {infos crumbs posts : List Exchange}
      {crumb : Option (String × String)} {r : Web.Request} {res : Except ServiceError Unit}
      (hinfos : s.Gets (s.infoUrl build) infos)
      (hinfo : Fetch.Delivers BuildInfo.ofJson? infos info) (hstarted : StartedWith info name value)
      (hcrumbs : s.Gets s.crumbUrl crumbs)
      (hcrumb : ∀ c, crumb = some c ↔ Fetch.Delivers readCrumb crumbs c)
      (hr : s.request .post (s.stopUrl build.name build.number) = .ok r)
      (hposts : Fetch.Followed (stopRequest crumb r) posts)
      (hres : res = .ok () ↔ Accepted posts) :
    Conducted s name value ⟨build, some info, infos, crumbs, posts⟩ res

end Visit

/-- The builds other than the one that asks. -/
def others (job : String) (number : Nat) (builds : List RunningBuild) : List RunningBuild :=
  builds.filter fun build => ¬ (build.name = job ∧ build.number = number)

theorem others_cons_of_own {build : RunningBuild} (hown : build.name = job ∧ build.number = number)
    (builds : List RunningBuild) :
    others job number (build :: builds) = others job number builds :=
  List.filter_cons_of_neg (by simp [hown])

theorem others_cons_of_other {build : RunningBuild}
    (hother : ¬ (build.name = job ∧ build.number = number)) (builds : List RunningBuild) :
    others job number (build :: builds) = build :: others job number builds :=
  List.filter_cons_of_pos (decide_eq_true hother)

theorem conducted_of_yields_stopBuild {build : RunningBuild} {info : BuildInfo}
    {infos : List Exchange} {res : Except ServiceError Unit}
    (hcrumb : ∃ r, s.request .get s.crumbUrl = .ok r)
    (hstop : ∃ r, s.request .post (s.stopUrl build.name build.number) = .ok r)
    (hinfos : s.Gets (s.infoUrl build) infos)
    (hinfo : Fetch.Delivers BuildInfo.ofJson? infos info) (hstarted : StartedWith info name value)
    (h : (s.stopBuild build.name build.number).Yields t es t' res) :
    ∃ crumbs posts, es = crumbs ++ posts ∧
      Visit.Conducted s name value ⟨build, some info, infos, crumbs, posts⟩ res := by
  obtain ⟨crumbs, posts, crumb, r, rfl, hcrumbs, hcrumb, hr, ⟨hsend, rfl, hres⟩ | ⟨hposts, hres⟩⟩ :=
    stopping_of_yields hcrumb hstop h
  · cases res with
    | ok => exact absurd rfl hres
    | error error =>
      exact ⟨crumbs, [], rfl, .unsent hinfos hinfo hstarted hcrumbs hcrumb hr hsend⟩
  · exact ⟨crumbs, posts, rfl, .told hinfos hinfo hstarted hcrumbs hcrumb hr hposts hres⟩

/-- The builds but for the one that asks are visited in order until a visit fails, and those that
were started with the value are what comes of it. -/
theorem rounds_of_yields_stopMatching (hlist : ∃ r, s.request .get s.executorsUrl = .ok r)
    {builds : List RunningBuild} {res : Except ServiceError (List RunningBuild)}
    (h : (s.stopMatching job number name value builds).Yields t es t' res) :
    ∃ visits r, es = visits.flatMap Visit.exchanges ∧
      Rounds Visit.build (Visit.Conducted s name value) (others job number builds) visits r ∧
      res = r.map fun _ => Visit.matching name value visits := by
  obtain ⟨r, hr⟩ := hlist
  induction builds generalizing t es res with
  | nil =>
    obtain ⟨rfl, -, rfl⟩ := yields_pure.1 h
    exact ⟨[], .ok (), rfl, .finished, rfl⟩
  | cons build builds ih =>
    obtain ⟨hinfoUrl, hcrumbUrl, hstopUrl⟩ := exists_requests hr build.name build.number
    rw [stopMatching] at h
    split at h
    next hown =>
      rw [Bool.and_eq_true, decide_eq_true_iff, decide_eq_true_iff] at hown
      rw [others_cons_of_own hown]
      exact ih h
    next hother =>
      rw [Bool.and_eq_true, decide_eq_true_iff, decide_eq_true_iff] at hother
      rw [others_cons_of_other hother]
      rcases yields_bind.1 h with ⟨error, h₁, rfl⟩ | ⟨info, infos, t₁, rest, h₁, h₂, rfl⟩
      · -- nothing is learnt of the build
        obtain ⟨hinfos, hinfo⟩ := gets_of_yields hinfoUrl h₁
        have hvisit : Visit.Conducted s name value ⟨build, none, es, [], []⟩ (.error error) :=
          .unknown hinfos fun info hdelivers => by cases (hinfo info).2 hdelivers
        exact ⟨_, .error error, by simp [Visit.exchanges], .failed hvisit, rfl⟩
      obtain ⟨hinfos, hinfo⟩ := gets_of_yields hinfoUrl h₁
      replace hinfo := (hinfo info).1 rfl
      split at h₂
      next hstarted =>
        replace hstarted := startedFor_iff.1 hstarted
        rcases yields_bind.1 h₂ with ⟨error, h₃, rfl⟩ | ⟨⟨⟩, stopping, t₂, rest, h₃, h₄, rfl⟩
        · -- the build is not stopped
          obtain ⟨crumbs, posts, rfl, hvisit⟩ :=
            conducted_of_yields_stopBuild hcrumbUrl hstopUrl hinfos hinfo hstarted h₃
          exact ⟨_, .error error, by simp [Visit.exchanges], .failed hvisit, rfl⟩
        · -- the build is stopped
          obtain ⟨crumbs, posts, rfl, hvisit⟩ :=
            conducted_of_yields_stopBuild hcrumbUrl hstopUrl hinfos hinfo hstarted h₃
          have hcons : (stopMatching s job number name value builds >>= fun stopped =>
              done (.ok (build :: stopped))).Yields t₂ rest t' res := h₄
          obtain ⟨res₁, h₅, rfl⟩ := yields_bind_done.1 hcons
          obtain ⟨visits, r₁, rfl, hvisits, rfl⟩ := ih h₅
          refine ⟨_, r₁, ?_, .next hvisit hvisits, ?_⟩
          · simp [Visit.exchanges]
          · rw [Visit.matching_cons_of_matches ⟨info, rfl, hstarted⟩]
            cases r₁ <;> rfl
      next hstarted =>
        have hvisit : Visit.Conducted s name value ⟨build, some info, infos, [], []⟩ (.ok ()) :=
          .spared hinfos hinfo fun h => hstarted (startedFor_iff.2 h)
        obtain ⟨visits, r₁, rfl, hvisits, rfl⟩ := ih h₂
        refine ⟨_, r₁, ?_, .next hvisit hvisits, ?_⟩
        · simp [Visit.exchanges]
        · rw [Visit.matching_cons_of_not]
          rintro ⟨_, ⟨⟩, h⟩
          exact hstarted (startedFor_iff.2 h)

/-! ## Runs -/

/-- What is exchanged to stop the builds before one, and what comes of it. -/
inductive StopLog (s : Scheduler) (job : String) (number : Nat) (name value : String) :
    List Exchange → Except ServiceError (List RunningBuild) → Prop
  /-- The executors cannot be asked for, as there is no address for that. -/
  | unlisted {error : ServiceError} (hlist : ∀ r, s.request .get s.executorsUrl ≠ .ok r) :
    StopLog s job number name value [] (.error error)
  /-- Nothing is learnt of the executors. -/
  | unread {listing : List Exchange} {error : ServiceError}
      (hlisting : s.Gets s.executorsUrl listing)
      (hcomputers : ∀ computers, ¬ Fetch.Delivers readRows listing computers) :
    StopLog s job number name value listing (.error error)
  /-- All builds are visited. -/
  | finished {listing : List Exchange} {computers : List Computer} {visits : List Visit}
      (hlisting : s.Gets s.executorsUrl listing)
      (hcomputers : Fetch.Delivers readRows listing computers)
      (hbuilds : visits.map Visit.build = others job number (listed computers))
      (hvisits : ∀ visit ∈ visits, Visit.Conducted s name value visit (.ok ())) :
    StopLog s job number name value (listing ++ visits.flatMap Visit.exchanges)
      (.ok (Visit.matching name value visits))
  /-- A visit fails, and is the last one. -/
  | broken {listing : List Exchange} {computers : List Computer} {visits : List Visit}
      {last : Visit} {error : ServiceError} (hlisting : s.Gets s.executorsUrl listing)
      (hcomputers : Fetch.Delivers readRows listing computers)
      (hbuilds : (visits ++ [last]).map Visit.build <+: others job number (listed computers))
      (hvisits : ∀ visit ∈ visits, Visit.Conducted s name value visit (.ok ()))
      (hlast : Visit.Conducted s name value last (.error error)) :
    StopLog s job number name value (listing ++ (visits ++ [last]).flatMap Visit.exchanges)
      (.error error)

theorem delivers_readComputers_iff {executables : List (Option Executable)} :
    Fetch.Delivers readComputers es executables ↔ ∃ computers,
      Fetch.Delivers readRows es computers ∧
        (computers.flatMap fun computer => computer.executors ++ computer.oneOff) =
          executables := by
  simp only [Fetch.Delivers, readComputers_eq, Option.bind_eq_some_iff, Option.map_eq_some_iff]
  constructor
  · rintro ⟨response, hsettled, hsuccess, j, hj, computers, hread, rfl⟩
    exact ⟨computers, ⟨response, hsettled, hsuccess, j, hj, hread⟩, rfl⟩
  · rintro ⟨computers, ⟨response, hsettled, hsuccess, j, hj, hread⟩, rfl⟩
    exact ⟨response, hsettled, hsuccess, j, hj, computers, hread, rfl⟩

theorem listed_eq (computers : List Computer) :
    ((computers.flatMap fun computer => computer.executors ++ computer.oneOff).filterMap
      id).filterMap runningBuild? = listed computers := by
  rw [List.filterMap_filterMap, List.filterMap_flatMap]
  rfl

/-- The list of executors is asked for, unless there is no address for that, and it comes to the
builds on the computers that are read. -/
theorem listed_of_yields_runningBuilds {res : Except ServiceError (List RunningBuild)}
    (h : s.runningBuilds.Yields t es t' res) :
    (∃ error, (∀ r, s.request .get s.executorsUrl ≠ .ok r) ∧ es = [] ∧ res = .error error) ∨
      (s.Gets s.executorsUrl es ∧ ∀ builds, res = .ok builds ↔
        ∃ computers, Fetch.Delivers readRows es computers ∧ listed computers = builds) := by
  rw [runningBuilds_eq] at h
  obtain ⟨r₀, h₁, rfl⟩ := yields_bind_done.1 h
  cases hr : s.request .get s.executorsUrl with
  | error error =>
    rw [hr] at h₁
    rcases yields_ofExcept_bind.1 h₁ with ⟨error, -, rfl, -, rfl⟩ | ⟨r, hok, -⟩
    · exact .inl ⟨error, nofun, rfl, rfl⟩
    · cases hok
  | ok r =>
    obtain ⟨hes, hres⟩ := gets_of_yields ⟨r, hr⟩ h₁
    refine .inr ⟨hes, fun builds => ?_⟩
    constructor
    · intro hok
      cases r₀ with
      | error error => cases hok
      | ok executables =>
        obtain ⟨computers, hcomputers, rfl⟩ := delivers_readComputers_iff.1 ((hres _).1 rfl)
        cases hok
        exact ⟨computers, hcomputers, (listed_eq computers).symm⟩
    · rintro ⟨computers, hcomputers, rfl⟩
      rw [(hres _).2 (delivers_readComputers_iff.2 ⟨computers, hcomputers, rfl⟩), ← listed_eq]
      rfl

theorem stopLog_of_yields {res : Except ServiceError (List RunningBuild)}
    (h : (s.stopPrevious job number name value).Yields t es t' res) :
    StopLog s job number name value es res := by
  unfold stopPrevious at h
  rcases yields_bind.1 h with ⟨error, h₁, rfl⟩ | ⟨builds, listing, t₁, rest, h₁, h₂, rfl⟩
  · rcases listed_of_yields_runningBuilds h₁ with ⟨_, hlist, rfl, -⟩ | ⟨hlisting, hres⟩
    · exact .unlisted hlist
    · exact .unread hlisting fun computers hcomputers =>
        nomatch (hres _).2 ⟨computers, hcomputers, rfl⟩
  rcases listed_of_yields_runningBuilds h₁ with ⟨_, -, -, hok⟩ | ⟨hlisting, hres⟩
  · cases hok
  obtain ⟨computers, hcomputers, rfl⟩ := (hres builds).1 rfl
  have hlist : ∃ r, s.request .get s.executorsUrl = .ok r := hlisting.imp fun r hr => hr.1
  obtain ⟨visits, r, rfl, hvisits, rfl⟩ := rounds_of_yields_stopMatching hlist h₂
  cases r with
  | ok =>
    exact .finished hlisting hcomputers hvisits.keys_eq fun visit hvisit =>
      hvisits.conducted_ok hvisit
  | error error =>
    obtain ⟨earlier, last, rfl, hlast⟩ := hvisits.exists_last
    refine .broken hlisting hcomputers hvisits.keys_prefix (fun visit hvisit => ?_) hlast
    obtain ⟨before, after, rfl⟩ := List.append_of_mem hvisit
    obtain ⟨r₁, hr₁, hnext, -⟩ :=
      hvisits.conducted_of_eq (show _ = before ++ visit :: (after ++ [last]) by simp)
    rw [← hnext (by simp)]
    exact hr₁

/-- **Which builds are stopped.**  A run asks for the executors, and then, in order, for every build
on them but the one that asks.  It stops those that were started with the value, and returns them if
nothing fails.  The request that fails is the last one; if it is none that can be sent, it leaves no
trace, and what is exchanged ends right before it. -/
theorem stopPrevious_log (s : Scheduler) (job : String) (number : Nat) (name value : String)
    (server : Server) (w : World) :
    ∃ es, ((s.stopPrevious job number name value).run server w).2.requests =
        w.requests ++ es.map (·.request) ∧
      (∀ before x after, es = before ++ x :: after →
        x.answer = server (w.requests ++ before.map (·.request) ++ [x.request])) ∧
      StopLog s job number name value es ((s.stopPrevious job number name value).run server w).1 :=
  ⟨(s.stopPrevious job number name value).exchanges server w, requests_run server w _,
    fun _ _ _ => answer_of_exchanges_eq, stopLog_of_yields (yields_run server w _)⟩

/-! A scheduler whose crumb is none that a header can have. -/

namespace Unsendable

/-- The scheduler, right below its host. -/
def scheduler : Scheduler := ⟨"http://h", "u", "t"⟩

/-- What the scheduler tells about executors. -/
def executors : String :=
  "\x7b\"computer\":[\x7b\"executors\":[\x7b\"currentExecutable\":\x7b\"number\":5," ++
  "\"url\":\"http://h/job/a/5/\"\x7d\x7d]\x7d]\x7d"

/-- What the scheduler tells about the build. -/
def started : String :=
  "\x7b\"actions\":[\x7b\"_class\":\"ParametersAction\",\"parameters\":" ++
  "[\x7b\"name\":\"PR\",\"value\":\"7\"\x7d]\x7d]\x7d"

/-- The crumb of the scheduler, with a blank in the name of its header. -/
def crumb : String := "\x7b\"crumbRequestField\":\"a b\",\"crumb\":\"c\"\x7d"

/-- How the scheduler answers. -/
def server : Server := fun requests =>
  match requests.getLast? with
  | some (.web r) =>
    if r.url.path = "/crumbIssuer/api/json" then .reply ⟨200, none, .text crumb⟩
    else if r.url.path = "/computer/api/json" then .reply ⟨200, none, .text executors⟩
    else .reply ⟨200, none, .text started⟩
  | _ => .dropped

def world : World := ⟨[], "", .empty⟩

/-- A newer build stops the builds before it. -/
def stop (s : Scheduler) : Program ServiceError (List RunningBuild) :=
  s.stopPrevious "a" 6 "PR" "7"

/-- Whether an exchange is for the crumb, and brings it. -/
def bringsCrumb (x : Exchange) : Bool :=
  match x.request, x.answer, scheduler.request .get scheduler.crumbUrl with
  | .web r, .reply reply, .ok q =>
    (r.method = q.method ∧ r.url = q.url ∧ r.headers = q.headers ∧ r.body.isNone ∧ q.body.isNone) ∧
      (Fetch.redirect? r reply).isNone ∧ Fetch.isSuccess reply.status ∧
      (Json.parse? reply.body.toText).bind readCrumb = some ("a b", "c")
  | _, _, _ => false

theorem gets_of_bringsCrumb {x : Exchange} (h : bringsCrumb x = true) :
    scheduler.Gets scheduler.crumbUrl [x] ∧ Fetch.Delivers readCrumb [x] ("a b", "c") := by
  unfold bringsCrumb at h
  split at h
  next r reply q hrequest hanswer hq =>
    obtain ⟨⟨hmethod, hurl, hheaders, hbody, hbody'⟩, hnext, hsuccess, hread⟩ :=
      of_decide_eq_true h
    obtain ⟨request, answer⟩ := x
    cases hrequest
    cases hanswer
    have hr : r = q := by
      obtain ⟨method, url, headers, body⟩ := r
      obtain ⟨method', url', headers', body'⟩ := q
      cases hmethod
      cases hurl
      cases hheaders
      cases Option.isNone_iff_eq_none.1 hbody
      cases Option.isNone_iff_eq_none.1 hbody'
      rfl
    have hsettled : Fetch.Settled [⟨.web r, .reply reply⟩] _ :=
      Fetch.settled_singleton.2 ⟨reply, rfl, Option.isNone_iff_eq_none.1 hnext, rfl⟩
    exact ⟨⟨r, hr ▸ hq, .answered r _⟩, _, hsettled, hsuccess, hread⟩
  next => cases h

theorem stop_scheduler :
    ((stop scheduler).exchanges server world).getLast?.any bringsCrumb = true ∧
      ((stop scheduler).run server world).1.isOk = false := by
  decide +kernel

theorem stop_unusable : ((stop ⟨"", "u", "t"⟩).exchanges server world).isEmpty = true ∧
    ((stop ⟨"", "u", "t"⟩).run server world).1.isOk = false := by
  decide +kernel

end Unsendable

/-- So a run that fails need not end with the request that fails: nothing is sent to an address that
is none, and a crumb that is none for a header is the last that is asked for. -/
theorem stopPrevious_not_endsWithFailure :
    (¬ ∀ (s : Scheduler) (job : String) (number : Nat) (name value : String) (server : Server)
        (w : World), ((s.stopPrevious job number name value).run server w).1.isOk = false →
      (s.stopPrevious job number name value).exchanges server w ≠ []) ∧
    ¬ ∀ (s : Scheduler) (job : String) (number : Nat) (name value : String) (server : Server)
        (w : World), ((s.stopPrevious job number name value).run server w).1.isOk = false →
      ∀ front last crumb,
        (s.stopPrevious job number name value).exchanges server w = front ++ last →
          s.Gets s.crumbUrl last → ¬ Fetch.Delivers readCrumb last crumb := by
  constructor
  · intro hsent
    obtain ⟨hempty, hfails⟩ := Unsendable.stop_unusable
    exact hsent _ _ _ _ _ _ _ hfails (List.isEmpty_iff.1 hempty)
  · intro hends
    obtain ⟨hbrings, hfails⟩ := Unsendable.stop_scheduler
    obtain ⟨last, hlast, hcrumb⟩ := (Option.any_eq_true _ _).1 hbrings
    obtain ⟨front, hfront⟩ := List.getLast?_eq_some_iff.1 hlast
    obtain ⟨hgets, hdelivers⟩ := Unsendable.gets_of_bringsCrumb hcrumb
    exact hends _ _ _ _ _ _ _ hfails front [last] _ hfront hgets hdelivers

end Scheduler

end ImagePipeline
