import ImagePipeline.CommandLine
import ImagePipeline.Proofs.CommandTranscript

/-!
# Transcripts of calls

A call reads its settings and then goes on with its command.  The settings are read from variables
and files; no service is asked for any.

* `Verb.command`: the commands by their names.
* `Invocation.program_eq`: a call is the reading of its settings, then its command.
* `Invocation.settings_of_yields`: the reading leaves no trace.
-/

namespace ImagePipeline

open Files (Tree)
open Program

/-- The command of a name, in the working directory. -/
def Verb.command (s : Settings) (env : Environment) : Verb → Command Unit
  | llvm => Command.llvm s env env.directory
  | build => Command.build s env env.directory
  | publish => Command.publish s env
  | prepare => Command.prepare s env
  | cleanup => Command.cleanup s env
  | stopPrevious => Command.stopPrevious s
  | version => pure ()

namespace Invocation

variable {i : Invocation} {env : Environment} {t t' : Tree} {es : List Exchange}

theorem program_eq (h : i.verb ≠ .version) :
    i.program env = i.settings env >>= fun s => i.verb.command s env := by
  rw [program, if_neg h]
  cases i.verb <;> rfl

theorem settings_of_yields {r : Except Failure Settings} (h : (i.settings env).Yields t es t' r) :
    es = [] ∧ t' = t := by
  unfold settings at h
  rw [yields_files_bind] at h
  rcases Command.setting_of_yields h with ⟨failure, -, rfl, rfl⟩ | ⟨endpoints, -, h₁⟩
  · exact ⟨rfl, rfl⟩
  rcases Command.setting_of_yields h₁ with ⟨failure, -, rfl, rfl⟩ | ⟨s, -, h₂⟩
  · exact ⟨rfl, rfl⟩
  obtain ⟨rfl, rfl, -⟩ := yields_pure.1 h₂
  exact ⟨rfl, rfl⟩

/-- A call that leaves a trace is its command with some settings. -/
theorem command_of_yields {r : Except Failure Unit} (hverb : i.verb ≠ .version)
    (h : (i.program env).Yields t es t' r) :
    (es = [] ∧ t' = t) ∨ ∃ s, (i.verb.command s env).Yields t es t' r := by
  rw [program_eq hverb] at h
  rcases yields_bind.1 h with ⟨failure, h₁, rfl⟩ | ⟨s, es₁, t₁, es₂, h₁, h₂, rfl⟩
  · exact .inl (settings_of_yields h₁)
  · obtain ⟨rfl, rfl⟩ := settings_of_yields h₁
    exact .inr ⟨s, h₂⟩

end Invocation

end ImagePipeline
