import ImagePipeline.Proofs.GateDecision
import ImagePipeline.Proofs.ToolchainPlan
import Mathlib.Order.Lattice

/-!
# Every outcome of planning

A plan for a toolchain image rests on four things: whether the image is there, what the registry
tells, whether a pull just failed, and the date of the commit that is expected.  Any of them may be
missing or unreadable.

* `Provenance.Pullable`, `Provenance.Outdated`: what the two outcomes ask that need the registry.
* `plan_pullable`, `plan_outdated`, `plan_otherwise`: one equation for each way to plan for an image
  that is not there.
* `Provenance.Outdated.of_le`: a pull request does not get out of date by a later date.
* `plan_outcomes`: when each outcome comes about, what planning again after a failed pull gives,
  and that a later date leaves a plan as it is.
-/

namespace ImagePipeline.Toolchain

variable {expected : Provenance} {pullFailed : Bool} {remote : Option Labels}

namespace Provenance

/-- The registry has the expected image: there are labels, the pull has not failed, and commit and
recipe are the expected texts. -/
def Pullable (expected : Provenance) (remote : Option Labels) (pullFailed : Bool) : Prop :=
  pullFailed = false ∧ ∃ labels, remote = some labels ∧ labels.isEmpty = false ∧
    labels.get? keys.commit = some expected.commit ∧
      labels.get? keys.recipeHash = some expected.recipeHash

/-- The registry has an image of a later commit, by dates that can both be read. -/
def Outdated (expected : Provenance) (remote : Option Labels) (pullFailed : Bool) : Prop :=
  pullFailed = false ∧ ∃ labels date other, remote = some labels ∧
    (labels.get? keys.commitDate).bind Instant.read? = some other ∧
      Instant.read? expected.commitDate = some date ∧ date < other

theorem precedes_iff {labels : Labels} :
    expected.precedes labels = true ↔ ∃ date other,
      (labels.get? keys.commitDate).bind Instant.read? = some other ∧
        Instant.read? expected.commitDate = some date ∧ date < other := by
  unfold precedes date?
  cases (labels.get? keys.commitDate).bind Instant.read? with
  | none => simp
  | some other =>
    cases Instant.read? expected.commitDate with
    | none => simp
    | some date => simp

/-- A pull request does not get out of date by a later date. -/
theorem Outdated.of_le {later : String} {date date' : Instant}
    (hdate : Instant.read? expected.commitDate = some date)
    (hlater : Instant.read? later = some date') (hle : date ≤ date')
    (h : { expected with commitDate := later }.Outdated remote pullFailed) :
    expected.Outdated remote pullFailed := by
  obtain ⟨hpull, labels, later', other, hremote, hother, hlater', hlt⟩ := h
  obtain rfl := Option.some.inj (hlater.symm.trans hlater')
  exact ⟨hpull, labels, date, other, hremote, hother, hdate, hle.trans_lt hlt⟩

end Provenance

/-! ## Plans for an image that is not there -/

theorem plan_pullable (h : expected.Pullable remote pullFailed) :
    plan expected false remote pullFailed = .ok .pull := by
  obtain ⟨rfl, labels, rfl, hlabels, hcommit, hrecipe⟩ := h
  have hagrees : expected.agreesWith labels = true :=
    Provenance.agreesWith_iff.2 ⟨hcommit, hrecipe⟩
  simp [plan, hlabels, hagrees]

theorem plan_outdated (hpull : ¬ expected.Pullable remote pullFailed)
    (h : expected.Outdated remote pullFailed) :
    plan expected false remote pullFailed = .error .sourceOutOfDate := by
  obtain ⟨rfl, labels, date, other, rfl, hother, hdate, hlt⟩ := h
  have hlabels : labels.isEmpty = false := by
    obtain ⟨text, htext, -⟩ := Option.bind_eq_some_iff.1 hother
    exact Labels.isEmpty_eq_false_of_get? htext
  have hagrees : expected.agreesWith labels = false :=
    Bool.eq_false_iff.2 fun h => hpull ⟨rfl, labels, rfl, hlabels, Provenance.agreesWith_iff.1 h⟩
  have hprecedes : expected.precedes labels = true :=
    Provenance.precedes_iff.2 ⟨date, other, hother, hdate, hlt⟩
  simp [plan, hlabels, hagrees, hprecedes]

theorem plan_otherwise (hpull : ¬ expected.Pullable remote pullFailed)
    (houtdated : ¬ expected.Outdated remote pullFailed) :
    plan expected false remote pullFailed = .ok .build := by
  cases remote with
  | none => rfl
  | some labels =>
    cases pullFailed with
    | true => exact plan_pullFailed expected (some labels)
    | false =>
      cases hlabels : labels.isEmpty with
      | true => simp [plan, hlabels]
      | false =>
        have hagrees : expected.agreesWith labels = false :=
          Bool.eq_false_iff.2 fun h =>
            hpull ⟨rfl, labels, rfl, hlabels, Provenance.agreesWith_iff.1 h⟩
        have hprecedes : expected.precedes labels = false := by
          refine Bool.eq_false_iff.2 fun h => houtdated ?_
          obtain ⟨date, other, hother, hdate, hlt⟩ := Provenance.precedes_iff.1 h
          exact ⟨rfl, labels, date, other, rfl, hother, hdate, hlt⟩
        simp [plan, hlabels, hagrees, hprecedes]

/-! ## All plans -/

/-- The four ways to plan. -/
theorem plan_cases (expected : Provenance) (localMatch : Bool) (remote : Option Labels)
    (pullFailed : Bool) :
    (localMatch = true ∧ plan expected localMatch remote pullFailed = .ok .reuse) ∨
    (localMatch = false ∧ expected.Pullable remote pullFailed ∧
      plan expected localMatch remote pullFailed = .ok .pull) ∨
    (localMatch = false ∧ ¬ expected.Pullable remote pullFailed ∧
      expected.Outdated remote pullFailed ∧
        plan expected localMatch remote pullFailed = .error .sourceOutOfDate) ∨
    (localMatch = false ∧ ¬ expected.Pullable remote pullFailed ∧
      ¬ expected.Outdated remote pullFailed ∧
        plan expected localMatch remote pullFailed = .ok .build) := by
  cases localMatch with
  | true => exact .inl ⟨rfl, rfl⟩
  | false =>
    by_cases hpull : expected.Pullable remote pullFailed
    · exact .inr (.inl ⟨rfl, hpull, plan_pullable hpull⟩)
    · by_cases houtdated : expected.Outdated remote pullFailed
      · exact .inr (.inr (.inl ⟨rfl, hpull, houtdated, plan_outdated hpull houtdated⟩))
      · exact .inr (.inr (.inr ⟨rfl, hpull, houtdated, plan_otherwise hpull houtdated⟩))

/-- After a failed pull an image is used if it is there, and built if it is not. -/
theorem plan_after_pullFailed (expected : Provenance) (localMatch : Bool) (remote : Option Labels) :
    plan expected localMatch remote true = .ok (if localMatch then .reuse else .build) := by
  cases localMatch with
  | true => rfl
  | false => exact plan_pullFailed expected remote

/-- **The outcomes of planning.**  An image that is there is used.  One that is not is pulled if the
registry has the expected commit and recipe and no pull has failed; else the pull request is out of
date if the registry's image is of a later instant, both dates can be read and no pull has failed;
else the image is built.  Planning again after a failed pull therefore ends, whatever the labels.
And where the expected date can be read, the same or a later one leaves every plan as it is. -/
theorem plan_outcomes (expected : Provenance) (localMatch : Bool) (remote : Option Labels)
    (pullFailed : Bool) :
    (plan expected localMatch remote pullFailed = .ok .reuse ↔ localMatch = true) ∧
    (plan expected localMatch remote pullFailed = .ok .pull ↔
      localMatch = false ∧ expected.Pullable remote pullFailed) ∧
    (plan expected localMatch remote pullFailed = .error .sourceOutOfDate ↔
      localMatch = false ∧ ¬ expected.Pullable remote pullFailed ∧
        expected.Outdated remote pullFailed) ∧
    (plan expected localMatch remote pullFailed = .ok .build ↔
      localMatch = false ∧ ¬ expected.Pullable remote pullFailed ∧
        ¬ expected.Outdated remote pullFailed) ∧
    (∀ labels, plan expected localMatch labels true =
      .ok (if localMatch then .reuse else .build)) ∧
    ∀ later date date' outcome, Instant.read? expected.commitDate = some date →
      Instant.read? later = some date' → date ≤ date' →
      plan expected localMatch remote pullFailed = .ok outcome →
      plan { expected with commitDate := later } localMatch remote pullFailed = .ok outcome := by
  have hcases := plan_cases expected localMatch remote pullFailed
  refine ⟨?reuse, ?pull, ?refuse, ?build, plan_after_pullFailed expected localMatch, ?later⟩
  case later =>
    intro later date date' outcome hdate hlater hle hplan
    rcases hcases with ⟨rfl, -⟩ | ⟨rfl, hpull, heq⟩ | ⟨rfl, -, -, heq⟩ | ⟨rfl, hpull, hout, heq⟩
    · exact hplan
    · obtain rfl := Except.ok.inj (heq.symm.trans hplan)
      exact plan_pullable hpull
    · exact nomatch heq.symm.trans hplan
    · obtain rfl := Except.ok.inj (heq.symm.trans hplan)
      exact plan_otherwise hpull fun h => hout (h.of_le hdate hlater hle)
  all_goals
    rcases hcases with ⟨rfl, heq⟩ | ⟨rfl, hpull, heq⟩ | ⟨rfl, hpull, hout, heq⟩ |
      ⟨rfl, hpull, hout, heq⟩ <;> simp [*]

/-! A toolchain that the registry has of another recipe, needed for commits of several dates. -/

namespace Moved

def needed (commitDate : String) : Provenance := ⟨"a1b2c3", commitDate, "d0d0"⟩

/-- The labels of the registry's image. -/
def registered : Labels :=
  Labels.ofList [("llvm_project_sha1", "a1b2c3"),
    ("llvm_project_sha1_date", "2024-03-01T00:00:00Z"), ("llvm_project_dockerfile_sha1", "beef")]

end Moved

open Moved in
/-- A leap second before the registry's image is out of date unless a pull has failed.  The same
date by another text is not, and so neither is the next second. -/
theorem plan_outcomes_moved :
    plan (needed "2024-02-29T23:59:60Z") false (some registered) false =
        .error .sourceOutOfDate ∧
      plan (needed "2024-02-29T23:59:60Z") false (some registered) true = .ok .build ∧
      plan (needed "2024-03-01T09:00:00+09:00") false (some registered) false = .ok .build ∧
      plan (needed "2024-03-01T00:00:01Z") false (some registered) false = .ok .build := by
  have hother : (registered.get? Provenance.keys.commitDate).bind Instant.read? =
      some ⟨1709251200, 0⟩ := by decide +kernel
  have hearlier : Instant.read? "2024-02-29T23:59:60Z" = some ⟨1709251199, 1000000000⟩ := by
    decide +kernel
  have hsame : Instant.read? "2024-03-01T09:00:00+09:00" = some ⟨1709251200, 0⟩ := by
    decide +kernel
  have hnext : Instant.read? "2024-03-01T00:00:01Z" = some ⟨1709251201, 0⟩ := by decide +kernel
  have hpull (commitDate : String) :
      ¬ (needed commitDate).Pullable (some registered) false := by
    rintro ⟨-, _, ⟨⟩, -, -, hrecipe⟩
    have hbeef : registered.get? Provenance.keys.recipeHash = some "beef" := by decide +kernel
    exact absurd (hbeef.symm.trans hrecipe) (by simp [needed])
  have hcurrent : ¬ (needed "2024-03-01T09:00:00+09:00").Outdated (some registered) false := by
    rintro ⟨-, _, date, other, ⟨⟩, hother', hdate, hlt⟩
    obtain rfl := Option.some.inj (hother.symm.trans hother')
    obtain rfl := Option.some.inj (hsame.symm.trans hdate)
    exact lt_irrefl _ hlt
  obtain ⟨-, -, hrefuse, -, hagain, -⟩ :=
    plan_outcomes (needed "2024-02-29T23:59:60Z") false (some registered) false
  obtain ⟨-, -, -, hbuild, -, hlater⟩ :=
    plan_outcomes (needed "2024-03-01T09:00:00+09:00") false (some registered) false
  have hbuilt := hbuild.2 ⟨rfl, hpull _, hcurrent⟩
  refine ⟨hrefuse.2 ⟨rfl, hpull _, rfl, registered, _, _, rfl, hother, hearlier, by decide⟩,
    hagain _, hbuilt, hlater _ _ _ _ hsame hnext (by decide) hbuilt⟩

end ImagePipeline.Toolchain
