import ImagePipeline.Proofs.InvocationTranscript
import ImagePipeline.Proofs.PrepareTranscript

/-!
# What a missing setting leaves behind

A command that cannot go on without a setting had better say so before it changes anything.  All
but one look at their settings before the first request that changes something, whichever way they
take.  The cleanup before a build looks at those of the workspaces after the images are gone.

* `Furnished`: a part of a command that does not fail for want of a setting.
* `Quiet`: a command that has changed nothing when it fails so.  All are, the cleanup before a build
  aside.
* `missing_changes`: what that cleanup has changed when it fails so.
-/

namespace ImagePipeline

/-- Whether a request changes something. -/
def Request.changes : Request → Bool
  | .web q => q.method ≠ .get
  | .engine _ c => c.changes

namespace Command

open Engine
open Files (Tree)
open Program

variable {s : Settings} {env : Environment} {t t' : Tree} {es : List Exchange} {name : String}
  {α β : Type}

/-- The failure for want of a setting. -/
abbrev missing (name : String) : Failure := .settings (.missingVariable name)

/-! ## Parts that look at no setting -/

/-- A part of a command that does not fail for want of a setting. -/
def Furnished (p : Command α) : Prop :=
  ∀ t es t' name, ¬ p.Yields t es t' (.error (missing name))

theorem furnished_pure (a : α) : Furnished (pure a : Command α) := by
  intro t es t' name h
  cases (yields_pure.1 h).2.2

theorem furnished_fail {failure : Failure} (hfailure : ∀ name, failure ≠ missing name) :
    Furnished (fail failure : Command α) := by
  intro t es t' name h
  cases (yields_fail.1 h).2.2
  exact hfailure name rfl

theorem furnished_writeLine (text : String) : Furnished (writeLine text : Command Unit) := by
  intro t es t' name h
  cases (yields_writeLine.1 h).2.2

theorem furnished_files : Furnished (files : Command Tree) := by
  intro t es t' name h
  cases (yields_files.1 h).2.2

/-- What is attempted does not fail. -/
theorem furnished_attempt {ε : Type} (p : Program ε α) :
    Furnished (p.attempt : Command (Except ε α)) := by
  intro t es t' name h
  obtain ⟨r₀, -, hr₀⟩ := yields_attempt.1 h
  cases hr₀

theorem furnished_mapError {ε : Type} {f : ε → Failure} (hf : ∀ error name, f error ≠ missing name)
    (p : Program ε α) : Furnished (p.mapError f) := by
  intro t es t' name h
  obtain ⟨r₀, -, hr₀⟩ := yields_mapError.1 h
  cases r₀ with
  | ok a => cases hr₀
  | error error => exact hf error name (Except.error.inj hr₀).symm

theorem furnished_onImages (p : Program ImageError α) : Furnished (onImages p) :=
  furnished_mapError (fun _ _ h => by cases h) p

theorem furnished_onService (p : Program ServiceError α) : Furnished (onService p) :=
  furnished_mapError (fun _ _ h => by cases h) p

theorem furnished_allowed (r : Except Refusal α) : Furnished (allowed r) := by
  intro t es t' name h
  have hr := (yields_ofExcept.1 h).2.2
  cases r with
  | ok a => cases hr
  | error refusal => cases hr

theorem Furnished.bind {p : Command α} {f : α → Command β} (hp : Furnished p)
    (hf : ∀ a, Furnished (f a)) : Furnished (p >>= f) := by
  intro t es t' name h
  rcases yields_bind.1 h with ⟨failure, h₁, hfailure⟩ | ⟨a, es₁, t₁, es₂, -, h₂, -⟩
  · cases hfailure
    exact hp _ _ _ _ h₁
  · exact hf a _ _ _ _ h₂

theorem furnished_connect (s : Settings) (env : Environment) : Furnished (connect s env) := by
  unfold connect
  refine furnished_files.bind fun t => ?_
  intro t₁ es t' name h
  have hr := (yields_ofExcept.1 h).2.2
  cases hconnect : (EngineAddress.read s.dockerSocket).connect t env with
  | ok e =>
    rw [hconnect] at hr
    cases hr
  | error error =>
    rw [hconnect] at hr
    cases hr

/-! ## What the commands do once they have their settings -/

theorem furnished_buildImage (e : EngineEndpoint) (env : Environment) (root : String)
    (kind : ImageKind) (reference : String) (args : BuildArgs) :
    Furnished (buildImage e env root kind reference args) := by
  unfold buildImage
  refine furnished_files.bind fun t => ?_
  refine (furnished_onImages _).bind fun context => ?_
  exact (furnished_onImages _).bind fun _ => furnished_onImages _

theorem furnished_expectedProvenance (s : Settings) (env : Environment) (root : String) :
    Furnished (expectedProvenance s env root) := by
  unfold expectedProvenance
  refine furnished_files.bind fun t => ?_
  refine (furnished_onImages _).bind fun commit => ?_
  refine (furnished_attempt _).bind fun date => ?_
  exact (furnished_onImages _).bind fun recipeHash => furnished_pure _

theorem furnished_labelsToPlan (s : Settings) (localMatch : Bool) (repository : String) :
    Furnished (labelsToPlan s localMatch repository) := by
  unfold labelsToPlan
  split
  · exact furnished_pure _
  · exact (furnished_attempt _).bind fun labels => furnished_pure _

theorem furnished_settlePlan (e : EngineEndpoint) (s : Settings) (env : Environment)
    (expected : Toolchain.Provenance) (localMatch : Bool) (remote : Option Labels)
    (repository pr : String) :
    Furnished (settlePlan e s env expected localMatch remote repository pr) := by
  unfold settlePlan
  split
  · refine (furnished_attempt _).bind fun pulled => ?_
    cases pulled with
    | ok => exact furnished_pure _
    | error error => exact furnished_pure _
  · exact furnished_pure _

theorem furnished_reportOutOfDate (s : Settings) : Furnished (reportOutOfDate s) := by
  unfold reportOutOfDate
  cases s.pr.requestUrl with
  | none => exact furnished_pure _
  | some url =>
    dsimp only
    cases SourceHost.commentsUrl url with
    | error error => exact furnished_pure _
    | ok comments => exact (furnished_attempt _).bind fun _ => furnished_pure _

theorem furnished_carryOut (e : EngineEndpoint) (s : Settings) (env : Environment)
    (root repository pr reference : String) (expected : Toolchain.Provenance) (kind : ImageKind)
    (plan : Except Refusal Toolchain.Plan) :
    Furnished (carryOut e s env root repository pr reference expected kind plan) := by
  rcases plan with refusal | _ | _ | _
  · have hrefused : ∀ name, Failure.refusal refusal ≠ missing name := by
      intro name h
      cases h
    unfold carryOut
    dsimp only
    split
    · exact (furnished_reportOutOfDate s).bind fun _ => furnished_fail hrefused
    · exact furnished_fail hrefused
  · exact (furnished_onImages _).bind fun id => furnished_writeLine _
  · exact (furnished_onImages _).bind fun id => furnished_writeLine _
  · refine (furnished_allowed _).bind fun args => ?_
    exact (furnished_buildImage _ _ _ _ _ _).bind fun id => furnished_writeLine _

theorem furnished_makeAllReady (e : EngineEndpoint) (s : Settings) (env : Environment)
    (root user pr : String) (expected : Toolchain.Provenance) (kinds : List ImageKind) :
    Furnished (makeAllReady e s env root user pr expected kinds) := by
  induction kinds with
  | nil => exact furnished_pure _
  | cons kind kinds ih =>
    refine Furnished.bind ?_ fun _ => ih
    unfold makeReady
    refine (furnished_writeLine _).bind fun _ => (furnished_writeLine _).bind fun _ => ?_
    refine (furnished_onImages _).bind fun found => ?_
    refine (furnished_labelsToPlan _ _ _).bind fun remote => ?_
    refine (furnished_settlePlan _ _ _ _ _ _ _ _).bind fun plan => ?_
    exact furnished_carryOut _ _ _ _ _ _ _ _ _ _

theorem furnished_buildProducts (e : EngineEndpoint) (env : Environment) (root user pr : String)
    (kinds : List ImageKind) : Furnished (buildProducts e env root user pr kinds) := by
  induction kinds with
  | nil => exact furnished_pure _
  | cons kind kinds ih =>
    refine Furnished.bind ?_ fun _ => ih
    unfold buildProduct
    refine (furnished_allowed _).bind fun args => ?_
    refine (furnished_writeLine _).bind fun _ => (furnished_writeLine _).bind fun _ => ?_
    exact (furnished_buildImage _ _ _ _ _ _).bind fun id => furnished_writeLine _

theorem furnished_mergeable (s : Settings) : Furnished (mergeable s) := by
  unfold mergeable
  cases s.pr.requestUrl with
  | none => exact furnished_pure _
  | some url => exact (furnished_attempt _).bind fun state => furnished_pure _

theorem furnished_publishImages (e : EngineEndpoint) (s : Settings) (env : Environment)
    (user pr : String) (kinds : List ImageKind) :
    Furnished (publishImages e s env user pr kinds) := by
  induction kinds with
  | nil => exact furnished_pure _
  | cons kind kinds ih =>
    refine Furnished.bind ?_ fun _ => ih
    unfold publishImage
    refine (furnished_writeLine _).bind fun _ => (furnished_writeLine _).bind fun _ => ?_
    refine (furnished_onImages _).bind fun labels => ?_
    refine (furnished_allowed _).bind fun localLabels => ?_
    refine ((furnished_attempt _).bind fun _ => furnished_pure _).bind fun remote => ?_
    refine (furnished_mergeable s).bind fun mergeable => ?_
    dsimp only
    split
    · refine (furnished_writeLine _).bind fun _ => ?_
      exact (furnished_onImages _).bind fun pushed => furnished_writeLine _
    · exact furnished_writeLine _

theorem furnished_reportStopped (builds : List RunningBuild) : Furnished (reportStopped builds) := by
  induction builds with
  | nil => exact furnished_pure _
  | cons build builds ih => exact (furnished_writeLine _).bind fun _ => ih

/-! ## The commands that fail for want of a setting -/

/-- What a command leaves when it fails for want of a setting. -/
def Quiet (p : Command α) : Prop :=
  ∀ t es t' name, p.Yields t es t' (.error (missing name)) →
    t' = t ∧ ∀ x ∈ es, x.request.changes = false

theorem Furnished.quiet {p : Command α} (hp : Furnished p) : Quiet p := by
  intro t es t' name h
  exact absurd h (hp t es t' name)

/-- A command may look at a setting before all else. -/
theorem quiet_required {value : Option α} {f : α → Command β} (hf : ∀ a, Quiet (f a)) :
    Quiet (setting (Settings.require name value) >>= f) := by
  intro t es t' name h
  rcases required_of_yields h with ⟨-, -, rfl, rfl⟩ | ⟨a, -, h₁⟩
  · exact ⟨rfl, fun x hx => absurd hx List.not_mem_nil⟩
  · exact hf a _ _ _ _ h₁

theorem quiet_llvm (root : String) : Quiet (llvm s env root) := by
  unfold llvm
  refine quiet_required fun user => quiet_required fun pr => Furnished.quiet ?_
  refine (furnished_expectedProvenance _ _ _).bind fun expected => ?_
  refine (furnished_writeLine _).bind fun _ => (furnished_writeLine _).bind fun _ => ?_
  refine (furnished_writeLine _).bind fun _ => (furnished_writeLine _).bind fun _ => ?_
  exact (furnished_connect s env).bind fun e => furnished_makeAllReady _ _ _ _ _ _ _ _

theorem quiet_build (root : String) : Quiet (build s env root) := by
  unfold build
  refine quiet_required fun user => quiet_required fun pr => Furnished.quiet ?_
  refine (furnished_connect s env).bind fun e => ?_
  exact (furnished_writeLine _).bind fun _ => furnished_buildProducts _ _ _ _ _ _

theorem quiet_publish : Quiet (publish s env) := by
  unfold publish
  refine quiet_required fun user => quiet_required fun pr => Furnished.quiet ?_
  refine (furnished_connect s env).bind fun e => ?_
  exact (furnished_writeLine _).bind fun _ => furnished_publishImages _ _ _ _ _ _

theorem quiet_stopPrevious : Quiet (stopPrevious s) := by
  unfold stopPrevious
  refine quiet_required fun pr => quiet_required fun job => ?_
  refine quiet_required fun number => quiet_required fun token => Furnished.quiet ?_
  refine (furnished_onService _).bind fun stopped => ?_
  have hreport := furnished_reportStopped stopped
  dsimp only
  split
  · exact (furnished_writeLine _).bind fun _ => hreport
  · exact hreport

/-- A full cleanup looks at the user after the images have been listed, and before any goes. -/
theorem quiet_cleanup : Quiet (cleanup s env) := by
  unfold cleanup
  refine quiet_required fun pr => ?_
  dsimp only
  split
  · exact (furnished_writeLine _).quiet
  intro t es t' name h
  rcases connect_of_yields h with ⟨failure, -, rfl, rfl⟩ | ⟨e, -, h₁⟩
  · exact ⟨rfl, fun x hx => absurd hx List.not_mem_nil⟩
  rw [onImages, prImages, find_eq, ask_mapError] at h₁
  obtain ⟨answer, rest, rfl, hrest⟩ := yields_ask_bind.1 h₁
  have hlisted : ∀ query, (Request.engine e (.listImages query)).changes = false := fun _ => rfl
  rcases hrest with ⟨failure, -, rfl, rfl, -⟩ | ⟨ids, -, h₂⟩
  · exact ⟨rfl, List.forall_mem_singleton.2 (hlisted _)⟩
  have hremoves : ∀ images, Furnished (onImages (removeAll e .ignore images) >>= fun report =>
      writeLine ("✓ コンテナ " ++ count report.containersRemoved ++ " 件、イメージ "
        ++ count report.imagesRemoved ++ " 件を削除（失敗 " ++ count report.failures
        ++ " 件は無視）")) :=
    fun images => (furnished_onImages _).bind fun report => furnished_writeLine _
  split at h₂
  next =>
    rcases required_of_yields h₂ with ⟨-, -, rfl, rfl⟩ | ⟨user, -, h₃⟩
    · exact ⟨rfl, List.forall_mem_singleton.2 (hlisted _)⟩
    · exact absurd h₃ (hremoves _ _ _ _ _)
  next => exact absurd h₂ (hremoves _ _ _ _ _)

/-- A command that fails for want of a setting has changed nothing, the cleanup before a build
aside. -/
theorem quiet_of_ne_prepare {verb : Verb} (hverb : verb ≠ .prepare) :
    Quiet (verb.command s env) := by
  cases verb with
  | llvm => exact quiet_llvm _
  | build => exact quiet_build _
  | publish => exact quiet_publish
  | prepare => exact absurd rfl hverb
  | cleanup => exact quiet_cleanup
  | stopPrevious => exact quiet_stopPrevious
  | version => exact (furnished_pure ()).quiet

/-- The cleanup before a build has changed something by then if it looked at the settings of the
workspaces and the engine had returned an image. -/
theorem changes_of_prepareLog (hlog : PrepareLog s env t es t' (.error (missing name))) :
    t' = t ∧ ((∀ x ∈ es, x.request.changes = false) ↔
      ¬ ((name = Variable.jenkinsHome ∨ name = Variable.jobName) ∧
        ∃ pr image, Found pr es image)) := by
  cases hlog with
  | quiet =>
    refine ⟨rfl, iff_of_true (fun x hx => absurd hx List.not_mem_nil) ?_⟩
    rintro ⟨-, pr, image, e, query, answer, ids, hmem, -⟩
    exact absurd hmem List.not_mem_nil
  | @removed pr e answer ids rounds _ _ hpr hids himages hsettled hcleared =>
    have hname : t' = t ∧ (name = Variable.jenkinsHome ∨ name = Variable.jobName) := by
      generalize hr : (.error (missing name) : Except Failure Unit) = r at hcleared
      cases hcleared with
      | kept => cases hr
      | unknown _ hname =>
        cases hr
        exact ⟨rfl, hname⟩
      | swept =>
        generalize (Files.removeMatching t env.here _).2 = removed at hr
        cases removed <;> cases hr
    obtain ⟨rfl, hname⟩ := hname
    refine ⟨rfl, ?_⟩
    cases rounds with
    | nil =>
      refine iff_of_true (List.forall_mem_singleton.2 rfl) ?_
      rintro ⟨-, pr', image, e', query, answer', ids', hmem, -, hids', himage⟩
      cases List.mem_singleton.1 hmem
      rw [hids] at hids'
      cases hids'
      rw [← himages] at himage
      exact absurd himage List.not_mem_nil
    | cons round rounds =>
      have himage : round.image ∈ ids := himages ▸ List.mem_cons_self
      have hremoval : imageExchange e round.image round.last ∈
          (round :: rounds).flatMap (·.exchanges e) :=
        List.mem_flatMap.2 ⟨round, List.mem_cons_self, mem_exchanges_iff.2 (.inr (.inr rfl))⟩
      constructor
      · intro hquiet
        have hchanges : (imageExchange e round.image round.last).request.changes = true := rfl
        rw [hquiet _ (List.mem_cons_of_mem _ hremoval)] at hchanges
        cases hchanges
      · intro hnone
        refine absurd ⟨hname, pr, round.image, ?_⟩ hnone
        exact ⟨e, _, answer, ids, List.mem_cons_self, rfl, hids, himage⟩

/-- **What a missing setting leaves behind.**  Any call that fails for want of a setting leaves the
files as they were.  It has changed nothing else either, unless it is the cleanup before a build,
the setting is one of the workspaces and the engine has returned an image for the pull request: in
that case something has gone. -/
theorem missing_changes {i : Invocation} {env : Environment} {server : Server} {w : World}
    (hmissing : ((i.program env).run server w).1 =
      .error (.settings (.missingVariable name))) :
    let es := (i.program env).exchanges server w
    ((i.program env).run server w).2.tree = w.tree ∧
      ((∀ x ∈ es, x.request.changes = false) ↔
        ¬ (i.verb = .prepare ∧ (name = Variable.jenkinsHome ∨ name = Variable.jobName) ∧
          ∃ pr image, Found pr es image)) := by
  intro es
  have hrun := yields_run server w (i.program env)
  rw [hmissing] at hrun
  generalize ((i.program env).run server w).2.tree = t' at hrun
  have hes : (i.program env).exchanges server w = es := rfl
  rw [hes] at hrun
  clear_value es
  have hversion : i.verb ≠ .version := by
    intro hverb
    rw [Invocation.program, if_pos hverb] at hmissing
    cases hmissing
  rcases Invocation.command_of_yields hversion hrun with ⟨rfl, rfl⟩ | ⟨s, hcommand⟩
  · refine ⟨rfl, iff_of_true (fun x hx => absurd hx List.not_mem_nil) ?_⟩
    rintro ⟨-, -, pr, image, e, query, answer, ids, hmem, -⟩
    exact absurd hmem List.not_mem_nil
  · by_cases hprepare : i.verb = .prepare
    · rw [hprepare] at hcommand
      obtain ⟨htree, hchanges⟩ := changes_of_prepareLog (prepareLog_of_yields hcommand)
      refine ⟨htree, hchanges.trans (not_congr ?_)⟩
      exact ⟨fun h => ⟨hprepare, h⟩, And.right⟩
    · obtain ⟨htree, hquiet⟩ := quiet_of_ne_prepare hprepare _ _ _ _ hcommand
      exact ⟨htree, iff_of_true hquiet fun h => hprepare h.1⟩

/-! A cleanup for the closed pull request 7, without the home directory of the scheduler. -/

namespace Homeless

def environment : Environment where
  directory := "/"
  value? name :=
    if name = Variable.prNumber then some "7"
    else if name = Variable.prAction then some "closed"
    else if name = Variable.dockerSocket then some "tcp://localhost:2375"
    else none

def invocation : Invocation := ⟨.prepare, {}⟩

/-- An engine with one image, from which no container comes. -/
def server : Server := fun requests =>
  match requests.getLast? with
  | some (.engine _ (.listImages _)) => .reply ⟨200, none, .text "[\x7b\"Id\": \"a\"\x7d]"⟩
  | _ => .reply ⟨200, none, .text "[]"⟩

def world : World := ⟨[], "", .empty⟩

/-- The setting that is missing at the end of a run. -/
def missing? : Except Failure Unit → Option String
  | .error (.settings (.missingVariable name)) => some name
  | _ => none

theorem eq_of_missing? {r : Except Failure Unit} (h : missing? r = some name) :
    r = .error (.settings (.missingVariable name)) := by
  unfold missing? at h
  split at h
  · cases h
    rfl
  · cases h

theorem run_missing : ((invocation.program environment).run server world).1 =
    .error (.settings (.missingVariable Variable.jenkinsHome)) :=
  eq_of_missing? (by decide +kernel)

theorem run_changes :
    ((invocation.program environment).run server world).2.requests.any (·.changes) = true := by
  decide +kernel

theorem exists_changes : ∃ x ∈ (invocation.program environment).exchanges server world,
    x.request.changes = true := by
  obtain ⟨before, q, answer, after, hes, hchanges⟩ := exists_exchange_of_any rfl run_changes
  refine ⟨⟨q, answer⟩, ?_, hchanges⟩
  rw [hes]
  exact List.mem_append_right _ List.mem_cons_self

end Homeless

/-- This cleanup ends for want of the home directory, and an image that the engine has returned is
gone by then. -/
theorem missing_changes_homeless :
    ((Homeless.invocation.program Homeless.environment).run Homeless.server Homeless.world).1 =
        .error (.settings (.missingVariable Variable.jenkinsHome)) ∧
      (∃ x ∈ (Homeless.invocation.program Homeless.environment).exchanges Homeless.server
        Homeless.world, x.request.changes = true) ∧
      ∃ pr image, Found pr ((Homeless.invocation.program Homeless.environment).exchanges
        Homeless.server Homeless.world) image := by
  refine ⟨Homeless.run_missing, Homeless.exists_changes, ?_⟩
  obtain ⟨-, hchanges⟩ := missing_changes Homeless.run_missing
  obtain ⟨x, hx, hchanged⟩ := Homeless.exists_changes
  by_cases hfound : ∃ pr image, Found pr ((Homeless.invocation.program
      Homeless.environment).exchanges Homeless.server Homeless.world) image
  · exact hfound
  · have hquiet := hchanges.2 fun h => hfound h.2.2
    rw [hquiet x hx] at hchanged
    cases hchanged

/-- So a setting that is missing does not keep everything as it was. -/
theorem missing_not_quiet :
    ¬ ∀ (i : Invocation) (env : Environment) (server : Server) (w : World) (name : String),
      ((i.program env).run server w).1 = .error (.settings (.missingVariable name)) →
        ((i.program env).run server w).2.tree = w.tree ∧
          ∀ x ∈ (i.program env).exchanges server w, x.request.changes = false := by
  intro hquiet
  obtain ⟨-, hall⟩ := hquiet Homeless.invocation Homeless.environment Homeless.server
    Homeless.world Variable.jenkinsHome Homeless.run_missing
  obtain ⟨x, hx, hchanged⟩ := Homeless.exists_changes
  rw [hall x hx] at hchanged
  cases hchanged

end Command

end ImagePipeline
