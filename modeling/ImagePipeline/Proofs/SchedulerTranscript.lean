import ImagePipeline.Proofs.ServiceTranscript
import ImagePipeline.Scheduler.Basic

/-!
# Transcripts of the scheduler

The scheduler is asked with gets, and told with posts.  A client that follows redirections posts
again only where the answer to the post before tells it to.

* `PostsOnly`: every post of a transcript is of a kind, or repeats the post before it; in
  `PostsAfter` the kind may depend on what was exchanged before.
* `Scheduler.Visits`: the ways over the listed builds; `visits_of_yields` says that stopping builds
  goes one of them.
* `Visits.posts`: the posts stop builds that are listed and do not have the name and the number of
  the build that asks.
* `Visits.asked`: unless something fails, every such build is asked for what it was started for,
  and stopped if that is the value.
-/

namespace ImagePipeline

open Files (Tree)
open Program

variable {t t' : Tree} {es es₁ es₂ before after : List Exchange} {r : Web.Request} {answer : Answer}
  {P Q : Web.Request → Prop}

/-! ## Posts -/

/-- The last exchange is a post, and its answer tells the client to repeat it elsewhere. -/
def Repeated (before : List Exchange) : Prop :=
  ∃ front q reply, before = front ++ [⟨.web q, .reply reply⟩] ∧ q.method = .post ∧
    reply.status ∈ [307, 308]

theorem Repeated.append_left (h : Repeated before) (front : List Exchange) :
    Repeated (front ++ before) := by
  obtain ⟨front', q, reply, rfl, hq, hreply⟩ := h
  exact ⟨front ++ front', q, reply, (List.append_assoc _ _ _).symm, hq, hreply⟩

/-- Every post is of a kind that may depend on what was exchanged before, or repeats the post before
it. -/
def PostsAfter (P : List Exchange → Web.Request → Prop) (es : List Exchange) : Prop :=
  ∀ before r answer after, es = before ++ ⟨.web r, answer⟩ :: after → r.method = .post →
    P before r ∨ Repeated before

theorem PostsAfter.nil {P : List Exchange → Web.Request → Prop} : PostsAfter P [] := by
  intro before r answer after h
  simp at h

theorem PostsAfter.mono {P Q : List Exchange → Web.Request → Prop} (h : PostsAfter P es)
    (hPQ : ∀ before r, r.method = .post → P before r → Q before r) : PostsAfter Q es := by
  intro before r answer after hes hr
  exact (h before r answer after hes hr).imp_left (hPQ before r hr)

theorem PostsAfter.of_append {P : List Exchange → Web.Request → Prop} {rest : List Exchange}
    (h : PostsAfter P (es ++ rest)) : PostsAfter P es := by
  rintro before r answer after rfl hr
  exact h before r answer (after ++ rest) (by simp) hr

theorem PostsAfter.append {P : List Exchange → Web.Request → Prop} (h₁ : PostsAfter P es₁)
    (h₂ : PostsAfter (fun before => P (es₁ ++ before)) es₂) : PostsAfter P (es₁ ++ es₂) := by
  intro before r answer after hes hr
  rcases List.append_eq_append_iff.1 hes with ⟨mid, rfl, hes₂⟩ | ⟨mid, hes₁, hmid⟩
  · exact (h₂ mid r answer after hes₂ hr).imp_right fun h => h.append_left es₁
  · cases mid with
    | nil =>
      rw [List.append_nil] at hes₁
      subst hes₁
      have hfirst : es₂ = [] ++ ⟨.web r, answer⟩ :: after := hmid.symm
      simpa using (h₂ [] r answer after hfirst hr).imp_right fun h => h.append_left es₁
    | cons x mid =>
      obtain ⟨rfl, rfl⟩ := List.cons.inj hmid
      exact h₁ before r answer mid hes₁ hr

/-- Every post is of the kind, or repeats the post before it. -/
def PostsOnly (P : Web.Request → Prop) (es : List Exchange) : Prop :=
  ∀ before r answer after, es = before ++ ⟨.web r, answer⟩ :: after → r.method = .post →
    P r ∨ Repeated before

theorem PostsOnly.nil : PostsOnly P [] := PostsAfter.nil

theorem PostsOnly.mono (h : PostsOnly P es) (hPQ : ∀ r, r.method = .post → P r → Q r) :
    PostsOnly Q es :=
  PostsAfter.mono h fun _ => hPQ

theorem PostsOnly.append (h₁ : PostsOnly P es₁) (h₂ : PostsOnly P es₂) :
    PostsOnly P (es₁ ++ es₂) :=
  PostsAfter.append h₁ h₂

namespace Fetch

/-- A redirection goes on with a post only if it repeats one. -/
theorem post_of_redirect? {next : Web.Request} {reply : Reply}
    (h : redirect? r reply = some next) (hnext : next.method = .post) :
    r.method = .post ∧ reply.status ∈ [307, 308] := by
  unfold redirect? at h
  obtain ⟨-, -, h⟩ := Option.bind_eq_some_iff.1 h
  obtain ⟨location, -, h⟩ := Option.bind_eq_some_iff.1 h
  obtain ⟨url, -, h⟩ := Option.bind_eq_some_iff.1 h
  split at h
  next hstatus =>
    cases h
    exact ⟨hnext, hstatus⟩
  next =>
    cases h
    cases hnext

/-- In a chain the first post is the request itself, and every other repeats the one before. -/
theorem Followed.post (h : Followed r es) {r' : Web.Request}
    (hes : es = before ++ ⟨.web r', answer⟩ :: after) (hr' : r'.method = .post) :
    (before = [] ∧ r' = r) ∨ Repeated before := by
  induction h generalizing before with
  | answered r answer =>
    cases before with
    | nil =>
      cases hes
      exact .inl ⟨rfl, rfl⟩
    | cons x before =>
      have hnil := (List.cons.inj hes).2
      simp at hnil
  | @redirected r next reply es hnext _ ih =>
    cases before with
    | nil =>
      cases hes
      exact .inl ⟨rfl, rfl⟩
    | cons x before =>
      rw [List.cons_append] at hes
      obtain ⟨hx, hrest⟩ := List.cons.inj hes
      subst hx
      rcases ih hrest with ⟨rfl, rfl⟩ | hrepeated
      · obtain ⟨hr, hreply⟩ := post_of_redirect? hnext hr'
        exact .inr ⟨[], r, reply, rfl, hr, hreply⟩
      · exact .inr (hrepeated.append_left [_])

theorem Followed.posts (h : Followed r es) : PostsOnly (· = r) es := by
  intro before r' answer after hes hr'
  exact (h.post hes hr').imp_left fun hfirst => hfirst.2

/-- What begins with a get holds no posts. -/
theorem Begun.posts_of_get {q : Except ServiceError Web.Request} (h : Begun q es)
    (hq : ∀ r, q = .ok r → r.method = .get) : PostsOnly P es := by
  cases h with
  | unsent => exact .nil
  | @sent r _ hr hes =>
    refine hes.posts.mono ?_
    rintro _ hpost rfl
    rw [hq _ hr] at hpost
    cases hpost

/-- A request that cannot be sent is not answered. -/
theorem followed_of_yields_send_ok {response : Response}
    (h : (send r).Yields t es t' (.ok response)) : Followed r es := by
  rcases followed_of_yields_send h with ⟨hr, -⟩ | ⟨-, hes⟩
  · unfold send at h
    rw [hr] at h
    cases (yields_fail.1 h).2.2
  · exact hes

theorem Followed.exists_head (h : Followed r es) :
    ∃ answer rest, es = ⟨.web r, answer⟩ :: rest := by
  cases h with
  | answered r answer => exact ⟨answer, [], rfl⟩
  | redirected => exact ⟨_, _, rfl⟩

end Fetch

/-! ## The scheduler -/

namespace Scheduler

variable {s : Scheduler} {job jobName name value : String} {number : Nat}

theorem request_eq_ok {method : Web.Method} {url : String} (h : s.request method url = .ok r) :
    r.method = method ∧ ∃ u, Web.Url.read? url = some u ∧ r.url.path = u.path := by
  unfold request Fetch.request at h
  cases hread : Web.Url.read? url with
  | none =>
    rw [hread] at h
    cases h
  | some u =>
    rw [hread] at h
    cases hinfo : u.userInfo with
    | none =>
      simp only [hinfo] at h
      cases h
      exact ⟨rfl, u, rfl, rfl⟩
    | some info =>
      simp only [hinfo] at h
      cases h
      exact ⟨rfl, u, rfl, rfl⟩

/-- A request that stops a build: a post to the address for that. -/
def Stops (s : Scheduler) (jobName : String) (number : Nat) (r : Web.Request) : Prop :=
  r.method = .post ∧
    ∃ u, Web.Url.read? (s.stopUrl jobName number) = some u ∧ r.url.path = u.path

theorem only_isWeb_runningBuilds (s : Scheduler) : s.runningBuilds.Only Request.IsWeb := by
  unfold runningBuilds
  exact (only_ofExcept _).bind fun request =>
    (Fetch.only_isWeb_json _ _).bind fun executables => only_pure _

theorem only_isWeb_buildInfo (s : Scheduler) (jobName : String) (number : Nat) :
    (s.buildInfo jobName number).Only Request.IsWeb := by
  unfold buildInfo
  exact (only_ofExcept _).bind fun request => Fetch.only_isWeb_json _ _

theorem only_isWeb_crumb (s : Scheduler) : s.crumb.Only Request.IsWeb := by
  unfold crumb
  refine Only.bind (Only.attempt ?_) fun asked => only_pure _
  exact (only_ofExcept _).bind fun request => Fetch.only_isWeb_json _ _

theorem only_isWeb_stopBuild (s : Scheduler) (jobName : String) (number : Nat) :
    (s.stopBuild jobName number).Only Request.IsWeb := by
  unfold stopBuild
  refine (only_isWeb_crumb s).bind fun crumb => (only_ofExcept _).bind fun request => ?_
  refine (Fetch.only_isWeb_send _).bind fun response => ?_
  split
  · exact only_pure _
  · exact only_fail _

/-- What begins with a get of the scheduler holds no posts. -/
theorem posts_of_begun_get {url : String} (h : Fetch.Begun (s.request .get url) es) :
    PostsOnly P es :=
  h.posts_of_get fun _ hr => (request_eq_ok hr).1

theorem runningBuilds_eq (s : Scheduler) : s.runningBuilds =
    (ofExcept (s.request .get s.executorsUrl) >>= Fetch.json readComputers) >>= fun executables =>
      done (.ok ((executables.filterMap id).filterMap runningBuild?)) := by
  unfold runningBuilds
  cases s.request .get s.executorsUrl <;> rfl

theorem posts_of_yields_runningBuilds {res : Except ServiceError (List RunningBuild)}
    (h : s.runningBuilds.Yields t es t' res) : PostsOnly P es := by
  rw [runningBuilds_eq] at h
  obtain ⟨_, h₁, -⟩ := yields_bind_done.1 h
  exact posts_of_begun_get (Fetch.begun_of_yields_ofExcept_bind_json h₁)

/-- The name of a listed build is read from its address. -/
theorem jobNameOfUrl?_of_yields {builds : List RunningBuild}
    (h : s.runningBuilds.Yields t es t' (.ok builds)) :
    ∀ build ∈ builds, jobNameOfUrl? build.url = some build.name := by
  unfold runningBuilds at h
  rcases yields_ofExcept_bind.1 h with ⟨error, -, -, -, hr⟩ | ⟨r, -, h₁⟩
  · cases hr
  rcases yields_bind.1 h₁ with ⟨error, -, hr⟩ | ⟨executables, es₁, t₁, es₂, -, h₂, -⟩
  · cases hr
  cases (yields_pure.1 h₂).2.2
  intro build hbuild
  obtain ⟨executable, -, hexecutable⟩ := List.mem_filterMap.1 hbuild
  unfold runningBuild? at hexecutable
  simp only [Option.bind_eq_bind, Option.bind_eq_some_iff] at hexecutable
  obtain ⟨number, -, url, -, jobName, hname, hbuild⟩ := hexecutable
  cases hbuild
  exact hname

theorem posts_of_yields_buildInfo {res : Except ServiceError BuildInfo}
    (h : (s.buildInfo jobName number).Yields t es t' res) : PostsOnly P es :=
  posts_of_begun_get (Fetch.begun_of_yields_ofExcept_bind_json h)

theorem posts_of_yields_crumb {res : Except ServiceError (Option (String × String))}
    (h : s.crumb.Yields t es t' res) : PostsOnly P es := by
  unfold crumb at h
  obtain ⟨_, es₁, _, es₂, h₁, h₂, rfl⟩ := yields_attempt_bind.1 h
  obtain ⟨rfl, -, -⟩ := yields_pure.1 h₂
  rw [List.append_nil]
  exact posts_of_begun_get (Fetch.begun_of_yields_ofExcept_bind_json h₁)

/-- The request that stops a build, with a crumb if there is one. -/
def stopRequest (crumb : Option (String × String)) (r : Web.Request) : Web.Request :=
  match crumb with
  | some (name, value) => r.withHeader name value
  | none => r

theorem stops_stopRequest (hr : s.request .post (s.stopUrl jobName number) = .ok r)
    (crumb : Option (String × String)) : s.Stops jobName number (stopRequest crumb r) := by
  have hstops := request_eq_ok hr
  cases crumb with
  | none => exact hstops
  | some header => exact hstops

/-- Stopping a build asks for a crumb, then posts. -/
theorem stopBuild_of_yields {res : Except ServiceError Unit}
    (h : (s.stopBuild jobName number).Yields t es t' res) :
    PostsOnly (s.Stops jobName number) es ∧
      (res = .ok () → ∃ r answer, ⟨.web r, answer⟩ ∈ es ∧ s.Stops jobName number r) := by
  unfold stopBuild at h
  dsimp only at h
  rcases yields_bind.1 h with ⟨error, h₁, rfl⟩ | ⟨crumb, es₁, t₁, es₂, h₁, h₂, rfl⟩
  · exact ⟨posts_of_yields_crumb h₁, nofun⟩
  have hcrumb : PostsOnly (s.Stops jobName number) es₁ := posts_of_yields_crumb h₁
  rcases yields_ofExcept_bind.1 h₂ with ⟨error, -, rfl, -, rfl⟩ | ⟨r, hr, h₃⟩
  · rw [List.append_nil]
    exact ⟨hcrumb, nofun⟩
  have hstops := stops_stopRequest hr crumb
  change (Fetch.send (stopRequest crumb r) >>= _).Yields _ _ _ _ at h₃
  rcases yields_bind.1 h₃ with ⟨error, h₄, rfl⟩ | ⟨response, es₃, t₂, es₄, h₄, h₅, rfl⟩
  · refine ⟨hcrumb.append ?_, nofun⟩
    rcases Fetch.followed_of_yields_send h₄ with ⟨-, rfl⟩ | ⟨-, hes⟩
    · exact .nil
    · exact hes.posts.mono fun q _ hq => hq ▸ hstops
  · have hes := Fetch.followed_of_yields_send_ok h₄
    have hnil : es₄ = [] := by
      split at h₅
      · exact (yields_pure.1 h₅).1
      · exact (yields_fail.1 h₅).1
    subst hnil
    rw [List.append_nil]
    obtain ⟨answer, rest, hhead⟩ := hes.exists_head
    refine ⟨hcrumb.append (hes.posts.mono fun q _ hq => hq ▸ hstops), fun _ => ?_⟩
    refine ⟨stopRequest crumb r, answer, ?_, hstops⟩
    rw [hhead]
    exact List.mem_append_right es₁ List.mem_cons_self

/-- The ways over the listed builds, with what is exchanged and whether the end is reached: the
build that asks is left out, one that was started for another value is left alone, and one that was
started for the value is stopped.  A failure ends the way. -/
inductive Visits (s : Scheduler) (job : String) (number : Nat) (name value : String) (t : Tree) :
    List RunningBuild → List Exchange → Bool → Prop where
  | finished : Visits s job number name value t [] [] true
  | own {build : RunningBuild} {builds : List RunningBuild} {es : List Exchange} {ok : Bool}
      (hown : build.name = job ∧ build.number = number)
      (hbuilds : Visits s job number name value t builds es ok) :
      Visits s job number name value t (build :: builds) es ok
  | unknown {build : RunningBuild} {builds : List RunningBuild} {asked : List Exchange}
      {error : ServiceError} (hother : ¬ (build.name = job ∧ build.number = number))
      (hasked : (s.buildInfo build.name build.number).Yields t asked t (.error error)) :
      Visits s job number name value t (build :: builds) asked false
  | spared {build : RunningBuild} {builds : List RunningBuild} {asked es : List Exchange}
      {info : BuildInfo} {ok : Bool} (hother : ¬ (build.name = job ∧ build.number = number))
      (hasked : (s.buildInfo build.name build.number).Yields t asked t (.ok info))
      (hstarted : info.startedFor name value = false)
      (hbuilds : Visits s job number name value t builds es ok) :
      Visits s job number name value t (build :: builds) (asked ++ es) ok
  | failed {build : RunningBuild} {builds : List RunningBuild} {asked stopping : List Exchange}
      {info : BuildInfo} {error : ServiceError}
      (hother : ¬ (build.name = job ∧ build.number = number))
      (hasked : (s.buildInfo build.name build.number).Yields t asked t (.ok info))
      (hstopping : (s.stopBuild build.name build.number).Yields t stopping t (.error error)) :
      Visits s job number name value t (build :: builds) (asked ++ stopping) false
  | stopped {build : RunningBuild} {builds : List RunningBuild} {asked stopping es : List Exchange}
      {info : BuildInfo} {ok : Bool} (hother : ¬ (build.name = job ∧ build.number = number))
      (hasked : (s.buildInfo build.name build.number).Yields t asked t (.ok info))
      (hstopping : (s.stopBuild build.name build.number).Yields t stopping t (.ok ()))
      (hbuilds : Visits s job number name value t builds es ok) :
      Visits s job number name value t (build :: builds) (asked ++ (stopping ++ es)) ok

theorem visits_of_yields {builds : List RunningBuild}
    {res : Except ServiceError (List RunningBuild)}
    (h : (s.stopMatching job number name value builds).Yields t es t' res) :
    t' = t ∧ Visits s job number name value t builds es res.isOk := by
  induction builds generalizing es res with
  | nil =>
    obtain ⟨rfl, rfl, rfl⟩ := yields_pure.1 h
    exact ⟨rfl, .finished⟩
  | cons build builds ih =>
    rw [stopMatching] at h
    split at h
    next hown =>
      rw [Bool.and_eq_true, decide_eq_true_iff, decide_eq_true_iff] at hown
      exact (ih h).imp_right (.own hown)
    next hother =>
      rw [Bool.and_eq_true, decide_eq_true_iff, decide_eq_true_iff] at hother
      rcases yields_bind.1 h with ⟨error, h₁, rfl⟩ | ⟨info, asked, t₁, rest, h₁, h₂, rfl⟩
      · obtain rfl := h₁.tree_eq (only_isWeb_buildInfo s _ _)
        exact ⟨rfl, .unknown hother h₁⟩
      obtain rfl := h₁.tree_eq (only_isWeb_buildInfo s _ _)
      split at h₂
      next hstarted =>
        rcases yields_bind.1 h₂ with ⟨error, h₃, rfl⟩ | ⟨⟨⟩, stopping, t₂, others, h₃, h₄, rfl⟩
        · obtain rfl := h₃.tree_eq (only_isWeb_stopBuild s _ _)
          exact ⟨rfl, .failed hother h₁ h₃⟩
        obtain rfl := h₃.tree_eq (only_isWeb_stopBuild s _ _)
        rcases yields_bind.1 h₄ with ⟨error, h₅, rfl⟩ | ⟨stopped, es₅, t₃, es₆, h₅, h₆, rfl⟩
        · exact (ih h₅).imp_right (.stopped hother h₁ h₃)
        · obtain ⟨rfl, rfl, rfl⟩ := yields_pure.1 h₆
          rw [List.append_nil]
          exact (ih h₅).imp_right (.stopped hother h₁ h₃)
      next hstarted =>
        exact (ih h₂).imp_right (.spared hother h₁ (Bool.eq_false_iff.2 hstarted))

namespace Visits

variable {builds : List RunningBuild} {ok : Bool}

/-- The posts stop builds that are listed, but for the one that asks. -/
theorem posts (h : Visits s job number name value t builds es ok) :
    PostsOnly (fun r => ∃ build ∈ builds, ¬ (build.name = job ∧ build.number = number) ∧
      s.Stops build.name build.number r) es := by
  induction h with
  | finished => exact .nil
  | own _ _ ih =>
    exact ih.mono fun r _ ⟨build, hbuild, hr⟩ => ⟨build, List.mem_cons_of_mem _ hbuild, hr⟩
  | unknown _ hasked => exact posts_of_yields_buildInfo hasked
  | spared _ hasked _ _ ih =>
    refine (posts_of_yields_buildInfo hasked).append ?_
    exact ih.mono fun r _ ⟨build, hbuild, hr⟩ => ⟨build, List.mem_cons_of_mem _ hbuild, hr⟩
  | @failed build _ _ _ _ _ hother hasked hstopping =>
    refine (posts_of_yields_buildInfo hasked).append ?_
    exact (stopBuild_of_yields hstopping).1.mono fun r _ hr =>
      ⟨build, List.mem_cons_self, hother, hr⟩
  | @stopped build _ _ _ _ _ _ hother hasked hstopping _ ih =>
    refine (posts_of_yields_buildInfo hasked).append (.append ?_ ?_)
    · exact (stopBuild_of_yields hstopping).1.mono fun r _ hr =>
        ⟨build, List.mem_cons_self, hother, hr⟩
    · exact ih.mono fun r _ ⟨build, hbuild, hr⟩ => ⟨build, List.mem_cons_of_mem _ hbuild, hr⟩

/-- If the end is reached, every listed build but the one that asks has been asked for, and stopped
if it was started for the value. -/
theorem asked (h : Visits s job number name value t builds es ok) (hok : ok = true)
    {build : RunningBuild} (hbuild : build ∈ builds)
    (hother : ¬ (build.name = job ∧ build.number = number)) :
    ∃ asked info, asked <:+: es ∧
      (s.buildInfo build.name build.number).Yields t asked t (.ok info) ∧
      (info.startedFor name value = true →
        ∃ r answer, ⟨.web r, answer⟩ ∈ es ∧ s.Stops build.name build.number r) := by
  induction h with
  | finished => cases hbuild
  | own hown _ ih =>
    rcases List.mem_cons.1 hbuild with rfl | hbuild
    · exact absurd hown hother
    · exact ih hok hbuild
  | unknown => cases hok
  | failed => cases hok
  | @spared _ _ asked es info _ _ hasked hstarted _ ih =>
    rcases List.mem_cons.1 hbuild with rfl | hbuild
    · refine ⟨asked, info, (List.prefix_append _ _).isInfix, hasked, fun h => ?_⟩
      rw [hstarted] at h
      cases h
    · obtain ⟨asked', info', hinfix, hasked', hstops⟩ := ih hok hbuild
      refine ⟨asked', info', hinfix.trans (List.suffix_append _ _).isInfix, hasked', fun h => ?_⟩
      obtain ⟨r, answer, hmem, hr⟩ := hstops h
      exact ⟨r, answer, List.mem_append_right _ hmem, hr⟩
  | @stopped _ _ asked stopping es info _ _ hasked hstopping _ ih =>
    rcases List.mem_cons.1 hbuild with rfl | hbuild
    · refine ⟨asked, info, (List.prefix_append _ _).isInfix, hasked, fun _ => ?_⟩
      obtain ⟨r, answer, hmem, hr⟩ := (stopBuild_of_yields hstopping).2 rfl
      exact ⟨r, answer, List.mem_append_right _ (List.mem_append_left _ hmem), hr⟩
    · obtain ⟨asked', info', hinfix, hasked', hstops⟩ := ih hok hbuild
      refine ⟨asked', info', ?_, hasked', fun h => ?_⟩
      · exact hinfix.trans ((List.suffix_append _ _).trans (List.suffix_append _ _)).isInfix
      · obtain ⟨r, answer, hmem, hr⟩ := hstops h
        exact ⟨r, answer, List.mem_append_right _ (List.mem_append_right _ hmem), hr⟩

end Visits

end Scheduler

end ImagePipeline
