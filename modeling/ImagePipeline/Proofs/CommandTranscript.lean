import ImagePipeline.Command.Basic
import ImagePipeline.Proofs.EngineTranscript

/-!
# Transcripts of what commands share

Before the first exchange a command looks at its settings and finds its engine; either can end it
without a trace in the log.

* `setting_of_yields`, `required_of_yields`, `connect_of_yields`: what comes after a setting and
  after the engine has been found.
* `BuildStep`: the ways a build of an image can go.
-/

namespace ImagePipeline.Command

open Files (Tree)
open Program

variable {β : Type} {s : Settings} {env : Environment} {t t' : Tree} {es : List Exchange}
  {r : Except Failure β}

/-- A setting that is not usable ends the command. -/
theorem setting_of_yields {α : Type} {value : Except SettingsError α} {f : α → Command β}
    (h : (setting value >>= f).Yields t es t' r) :
    (∃ failure, r = .error failure ∧ es = [] ∧ t' = t) ∨
      ∃ a, value = .ok a ∧ (f a).Yields t es t' r := by
  rcases yields_ofExcept_bind.1 h with ⟨failure, -, rfl, rfl, rfl⟩ | ⟨a, ha, h₁⟩
  · exact .inl ⟨failure, rfl, rfl, rfl⟩
  · cases value with
    | error error => cases ha
    | ok value =>
      cases ha
      exact .inr ⟨a, rfl, h₁⟩

theorem require_of_eq_some {α : Type} {name : String} {value : Option α} {a : α}
    (h : value = some a) : Settings.require name value = .ok a := by
  rw [h]
  rfl

/-- A setting that is missing ends the command and is named. -/
theorem required_of_yields {α : Type} {name : String} {value : Option α} {f : α → Command β}
    (h : (setting (Settings.require name value) >>= f).Yields t es t' r) :
    (value = none ∧ r = .error (.settings (.missingVariable name)) ∧ es = [] ∧ t' = t) ∨
      ∃ a, value = some a ∧ (f a).Yields t es t' r := by
  cases value with
  | none =>
    obtain ⟨rfl, rfl, rfl⟩ := yields_fail.1 h
    exact .inl ⟨rfl, rfl, rfl, rfl⟩
  | some a => exact .inr ⟨a, rfl, h⟩

/-- An address of the engine that is not usable ends the command. -/
theorem connect_of_yields {f : EngineEndpoint → Command β}
    (h : (connect s env >>= f).Yields t es t' r) :
    (∃ failure, r = .error failure ∧ es = [] ∧ t' = t) ∨
      ∃ e, (EngineAddress.read s.dockerSocket).connect t env = .ok e ∧
        (f e).Yields t es t' r := by
  rcases yields_bind.1 h with ⟨failure, h₁, rfl⟩ | ⟨e, es₁, t₁, es₂, h₁, h₂, rfl⟩
  · rw [connect, yields_files_bind, yields_ofExcept] at h₁
    exact .inl ⟨failure, rfl, h₁.1, h₁.2.1⟩
  · rw [connect, yields_files_bind, yields_ofExcept] at h₁
    obtain ⟨rfl, rfl, he⟩ := h₁
    cases hconnect : (EngineAddress.read s.dockerSocket).connect t₁ env with
    | error error =>
      rw [hconnect] at he
      cases he
    | ok e' =>
      rw [hconnect] at he
      cases he
      exact .inr ⟨e, rfl, h₂⟩

/-- A build of an image: nothing is sent without a context; with one the engine is told to build,
and asked for the image if that went well. -/
inductive BuildStep (e : EngineEndpoint) (env : Environment) (root : String) (kind : ImageKind)
    (reference : String) (args : BuildArgs) (t : Tree) :
    List Exchange → Except Failure String → Prop where
  | noContext {error : ImageError}
      (hcontext : Build.buildContext t env.here root kind.dockerfile = .error error) :
      BuildStep e env root kind reference args t [] (.error (.image error))
  | failed {context : Build.Archive} {answer : Answer} {error : ImageError}
      (hcontext : Build.buildContext t env.here root kind.dockerfile = .ok context) :
      BuildStep e env root kind reference args t
        [⟨.engine e (.build kind.dockerfile reference args context), answer⟩]
        (.error (.image error))
  | built {context : Build.Archive} {answer inspection : Answer}
      (hcontext : Build.buildContext t env.here root kind.dockerfile = .ok context) :
      BuildStep e env root kind reference args t
        [⟨.engine e (.build kind.dockerfile reference args context), answer⟩,
          ⟨.engine e (.inspect reference), inspection⟩]
        ((Engine.toldId reference inspection).mapError .image)

theorem buildStep_of_yields {e : EngineEndpoint} {root reference : String} {kind : ImageKind}
    {args : BuildArgs} {r : Except Failure String}
    (h : (buildImage e env root kind reference args).Yields t es t' r) :
    t' = t ∧ BuildStep e env root kind reference args t es r := by
  unfold buildImage onImages at h
  rw [yields_files_bind] at h
  rcases yields_bind.1 h with ⟨failure, h₁, rfl⟩ | ⟨context, es₁, t₁, es₂, h₁, h₂, rfl⟩
  · obtain ⟨r₀, h₀, hr₀⟩ := yields_mapError.1 h₁
    obtain ⟨rfl, rfl, hcontext⟩ := yields_ofExcept.1 h₀
    cases r₀ with
    | error error =>
      cases hr₀
      exact ⟨rfl, .noContext hcontext.symm⟩
    | ok context => cases hr₀
  · obtain ⟨r₀, h₀, hr₀⟩ := yields_mapError.1 h₁
    obtain ⟨rfl, rfl, hcontext⟩ := yields_ofExcept.1 h₀
    cases r₀ with
    | error error => cases hr₀
    | ok context' =>
      cases hr₀
      rcases yields_bind.1 h₂ with ⟨failure, h₃, rfl⟩ | ⟨⟨⟩, es₃, t₃, es₄, h₃, h₄, rfl⟩
      · obtain ⟨r₁, h₅, hr₁⟩ := yields_mapError.1 h₃
        obtain ⟨rfl, answer, rfl⟩ := Engine.build_of_yields h₅
        cases r₁ with
        | error error =>
          cases hr₁
          exact ⟨rfl, .failed hcontext.symm⟩
        | ok => cases hr₁
      · obtain ⟨r₁, h₅, -⟩ := yields_mapError.1 h₃
        obtain ⟨rfl, answer, rfl⟩ := Engine.build_of_yields h₅
        rw [Engine.shortId_eq, ask_mapError] at h₄
        obtain ⟨inspection, rfl, rfl, rfl⟩ := yields_ask.1 h₄
        exact ⟨rfl, .built hcontext.symm⟩

end ImagePipeline.Command
