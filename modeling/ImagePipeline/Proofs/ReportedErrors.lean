import ImagePipeline.Proofs.EngineStream
import ImagePipeline.Proofs.TransferRun

/-!
# Errors that the engine reports

The engine reports the failure of a transfer in the stream of an answer whose status is a success:
in objects with an `error`, with the details of one under `errorDetail`, or with both.  Builds and
pulls look at both; a push does not look at the details.

* `Reports`: an object reports an error.
* `transfers_report`: a build and a pull succeed exactly if no object of the stream reports an
  error, a push exactly if none has an `error` and all details can be read.
* `push_not_reports`: so a push may succeed over an error that was reported.
-/

namespace ImagePipeline

open EngineMessage (IsSent)
open Json (HasMember)

namespace Engine

/-- An object with these members reports an error. -/
def Reports (members : List (String × Json)) : Prop :=
  HasMember members "error" ∨ HasMember members "errorDetail"

variable {reply : Reply} {lines : List (List (String × Json))} {image : String}

/-! ## What transfers make of a stream -/

/-- The judgement on a stream that builds and pulls share: the first details of an error count, then
the way the stream has ended. -/
theorem isOk_judgement_iff {ε : Type} {failed : Option String → ε} {ended : EngineError → ε}
    {messages : List EngineMessage} {ending : Option EngineError} :
    (match messages.findSome? (·.errorDetail), ending with
      | some detail, _ => .error (failed detail)
      | none, some error => .error (ended error)
      | none, none => .ok () : Except ε Unit).isOk = true ↔
      ending = none ∧ ∀ m ∈ messages, m.errorDetail = none := by
  rw [← List.findSome?_eq_none_iff]
  cases messages.findSome? (·.errorDetail) with
  | some detail => simp [Except.isOk, Except.toBool]
  | none => cases ending <;> simp [Except.isOk, Except.toBool]

theorem isOk_buildOutcome_iff (h : isSuccess reply.status = true) :
    (buildOutcome (.reply reply)).isOk = true ↔ (EngineMessage.ofReply reply).2 = none ∧
      ∀ m ∈ (EngineMessage.ofReply reply).1, m.errorDetail = none := by
  rw [buildOutcome, accept_eq_ok_iff.2 ⟨rfl, h⟩]
  exact isOk_judgement_iff

theorem isOk_pullOutcome_iff (h : isSuccess reply.status = true) :
    (pullOutcome image (.reply reply)).isOk = true ↔ (EngineMessage.ofReply reply).2 = none ∧
      ∀ m ∈ (EngineMessage.ofReply reply).1, m.errorDetail = none := by
  rw [pullOutcome, accept_eq_ok_iff.2 ⟨rfl, h⟩]
  exact isOk_judgement_iff

theorem isOk_pushOutcome_iff (h : isSuccess reply.status = true) :
    (pushOutcome image (.reply reply)).isOk = true ↔ (EngineMessage.ofReply reply).2 = none := by
  rw [pushOutcome, accept_eq_ok_iff.2 ⟨rfl, h⟩]
  dsimp only [Except.mapError, Except.bind]
  cases (EngineMessage.ofReply reply).2 <;> simp [Except.isOk, Except.toBool]

section

variable (hlines : ∀ members ∈ lines, IsSent members)
  (hvalues : reply.body.values? = some (lines.map .object))

include hlines hvalues

theorem faultless_iff_not_reports :
    ((EngineMessage.ofReply reply).2 = none ∧
        ∀ m ∈ (EngineMessage.ofReply reply).1, m.errorDetail = none) ↔
      ∀ members ∈ lines, ¬ Reports members := by
  rw [EngineMessage.ofReply_eq_ofValues hvalues, EngineMessage.faultless_iff, List.forall_mem_map]
  refine forall₂_congr fun members hmembers => ?_
  rw [(hlines members hmembers).errorOf?_eq_none_iff, (hlines members hmembers).exists_message_iff,
    Reports, not_or]

theorem ending_eq_none_iff :
    (EngineMessage.ofReply reply).2 = none ↔ ∀ members ∈ lines, ¬ HasMember members "error" ∧
      ∀ j, ("errorDetail", j) ∈ members → (EngineMessage.readDetail j).isSome := by
  rw [EngineMessage.ofReply_eq_ofValues hvalues, EngineMessage.ofValues_snd_eq_none_iff,
    List.forall_mem_map]
  refine forall₂_congr fun members hmembers => ?_
  rw [(hlines members hmembers).errorOf?_eq_none_iff, (hlines members hmembers).isSome_ofJson?_iff]

end

/-- **Transfers and reported errors.**  Let the engine answer with a success and a stream of objects
of its own kind, and let the credentials be found.  Then a build and a pull succeed exactly if no
object reports an error.  A push succeeds exactly if none has an `error` and the details of errors
can be read; it agrees with the others on a stream that has an `error` somewhere or no details. -/
theorem transfers_report (hlines : ∀ members ∈ lines, IsSent members)
    (hsuccess : isSuccess reply.status = true)
    (hvalues : reply.body.values? = some (lines.map .object)) (e : EngineEndpoint)
    (server : Server) (w : World) :
    (∀ dockerfile tag args context,
      server (w.requests ++ [.engine e (.build dockerfile tag args context)]) = .reply reply →
      (((build e dockerfile tag args context).run server w).1.isOk = true ↔
        ∀ members ∈ lines, ¬ Reports members)) ∧
    (∀ source env repository tag credentials,
      source.find w.tree env.here (tagged repository tag) = .ok credentials →
      server (w.requests ++ [.engine e (.pull repository tag credentials)]) = .reply reply →
      (((pull e source env repository tag).run server w).1.isOk = true ↔
        ∀ members ∈ lines, ¬ Reports members)) ∧
    (∀ source env repository tag credentials,
      validateTag tag = .ok () →
      source.find w.tree env.here (tagged repository tag) = .ok credentials →
      server (w.requests ++ [.engine e (.push repository tag credentials)]) = .reply reply →
      (((push e source env repository tag).run server w).1.isOk = true ↔
        ∀ members ∈ lines, ¬ HasMember members "error" ∧
          ∀ j, ("errorDetail", j) ∈ members → (EngineMessage.readDetail j).isSome) ∧
      ((∃ members ∈ lines, HasMember members "error") ∨
          (∀ members ∈ lines, ¬ HasMember members "errorDetail") →
        (((push e source env repository tag).run server w).1.isOk = true ↔
          ∀ members ∈ lines, ¬ Reports members))) := by
  have hfaultless := faultless_iff_not_reports hlines hvalues
  have hending := ending_eq_none_iff hlines hvalues
  refine ⟨?_, ?_, ?_⟩
  · intro dockerfile tag args context hanswer
    rw [run_build, hanswer, isOk_buildOutcome_iff hsuccess, hfaultless]
  · intro source env repository tag credentials hcredentials hanswer
    rw [run_pull hcredentials, hanswer, isOk_pullOutcome_iff hsuccess, hfaultless]
  · intro source env repository tag credentials htag hcredentials hanswer
    rw [run_push htag hcredentials, hanswer, isOk_pushOutcome_iff hsuccess, hending]
    refine ⟨Iff.rfl, ?_⟩
    rintro (⟨members, hmembers, herror⟩ | hno)
    · exact ⟨fun h => absurd herror (h members hmembers).1,
        fun h => absurd (.inl herror) (h members hmembers)⟩
    · refine forall₂_congr fun members hmembers => ?_
      rw [Reports, not_or]
      exact and_congr_right fun _ => ⟨fun _ => hno members hmembers,
        fun h j hmember => absurd ⟨j, hmember⟩ h⟩

/-! A registry that does not let the image in, as the engine tells it: with the details only. -/

namespace Denied

/-- What the engine tells. -/
def object : List (String × Json) :=
  [("errorDetail", .object [("message", .string "denied")])]

/-- The answer to every transfer. -/
def denial : Reply := ⟨200, none, .stream [.object object] true⟩

def server : Server := fun _ => .reply denial

def engine : EngineEndpoint := .socket "/var/run/docker.sock"

/-- A run that was given a user and a token. -/
def source : CredentialSource := ⟨some ("user", "token"), "/config.json"⟩

def env : Environment := ⟨"/", fun _ => none⟩

def world : World := ⟨[], "", .empty⟩

theorem isSent : IsSent object where
  distinct := List.pairwise_singleton _ _
  error j hmember := by simp [object] at hmember
  errorDetail j hmember := by
    obtain ⟨-, rfl⟩ := Prod.mk.inj (List.mem_singleton.1 hmember)
    exact ⟨_, rfl⟩
  stream j hmember := by simp [object] at hmember
  status j hmember := by simp [object] at hmember

theorem reports : Reports object := .inr ⟨_, List.mem_cons_self⟩

theorem find_source : source.find world.tree env.here (tagged "images/product" "amd64") =
    .ok (some ⟨"user", "token", "docker.io"⟩) :=
  Program.eq_ok_of_toOption (by decide +kernel)

end Denied

/-- When the details are all that the engine tells, a build and a pull fail and a push succeeds. -/
theorem transfers_report_denied :
    ((build Denied.engine "Dockerfile" "product" [] []).run Denied.server Denied.world).1.isOk =
        false ∧
      ((pull Denied.engine Denied.source Denied.env "images/product" "amd64").run Denied.server
        Denied.world).1.isOk = false ∧
      ((push Denied.engine Denied.source Denied.env "images/product" "amd64").run Denied.server
        Denied.world).1.isOk = true := by
  have hlines : ∀ members ∈ [Denied.object], IsSent members :=
    List.forall_mem_singleton.2 Denied.isSent
  have hvalues : Denied.denial.body.values? = some ([Denied.object].map .object) := rfl
  obtain ⟨hbuild, hpull, hpush⟩ := transfers_report hlines (by decide) hvalues Denied.engine
    Denied.server Denied.world
  have hreports : ¬ ∀ members ∈ [Denied.object], ¬ Reports members :=
    fun hno => hno _ List.mem_cons_self Denied.reports
  refine ⟨?_, ?_, ?_⟩
  · rw [← Bool.not_eq_true, hbuild _ _ _ _ rfl]
    exact hreports
  · rw [← Bool.not_eq_true, hpull _ _ _ _ _ Denied.find_source rfl]
    exact hreports
  · rw [(hpush _ _ _ _ _ (Program.eq_ok_of_toOption (by decide)) Denied.find_source rfl).1,
      List.forall_mem_singleton]
    refine ⟨?_, ?_⟩
    · rintro ⟨j, hmember⟩
      simp [Denied.object] at hmember
    · intro j hmember
      obtain ⟨-, rfl⟩ := Prod.mk.inj (List.mem_singleton.1 hmember)
      decide

/-- So a push may succeed over an error that the engine reported. -/
theorem push_not_reports :
    ¬ ∀ (lines : List (List (String × Json))) (reply : Reply) (e : EngineEndpoint)
        (source : CredentialSource) (env : Environment) (repository tag : String)
        (credentials : Option Credentials) (server : Server) (w : World),
      (∀ members ∈ lines, IsSent members) → isSuccess reply.status = true →
      reply.body.values? = some (lines.map .object) → validateTag tag = .ok () →
      source.find w.tree env.here (tagged repository tag) = .ok credentials →
      server (w.requests ++ [.engine e (.push repository tag credentials)]) = .reply reply →
      (((push e source env repository tag).run server w).1.isOk = true ↔
        ∀ members ∈ lines, ¬ Reports members) := by
  intro hpush
  have hok : ((push Denied.engine Denied.source Denied.env "images/product" "amd64").run
      Denied.server Denied.world).1.isOk = true := by decide +kernel
  have hlines : ∀ members ∈ [Denied.object], IsSent members :=
    List.forall_mem_singleton.2 Denied.isSent
  have hvalid : validateTag "amd64" = .ok () := Program.eq_ok_of_toOption (by decide)
  have hno := (hpush [Denied.object] Denied.denial Denied.engine Denied.source Denied.env
    "images/product" "amd64" _ Denied.server Denied.world hlines (by decide) rfl hvalid
    Denied.find_source rfl).1 hok
  exact hno _ List.mem_cons_self Denied.reports

end Engine

end ImagePipeline
