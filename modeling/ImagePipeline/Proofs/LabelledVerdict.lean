import ImagePipeline.Proofs.FirstMatch
import ImagePipeline.Proofs.GateDecision
import ImagePipeline.Proofs.LabelValidation
import ImagePipeline.Proofs.Publication
import ImagePipeline.PullRequest.Trigger
import Mathlib.Order.Lattice

/-!
# The gate on labels as they are written

What comes before the gate are label texts: those of the local image and those of the registry's,
if it has any, with the phrase that started the build.  Dates count as the instants they denote,
the labels of the registry's image count only if they are valid, and of the phrase nothing counts
but whether it asks for publication.

* `Reason.Holds`, `isFirst_decide`: the rules of the gate, each by itself, and that the first one
  that holds gives the reason.
* `Case`: what comes before the gate; `Case.applies_iff` takes the rules from valid labels to
  label texts.
* `Case.exists_of_judged`: what decides in a publication is the verdict on a case.
* `Case.Alike`: cases that mean the same, to which by `Case.Alike.applies_iff` the same rules apply.
* `labelled_verdict`: the verdict on label texts, and that texts with the same meaning get the same.
-/

namespace ImagePipeline

namespace Labels

variable {ls : Labels} {family : Family} {image : String} {v : ValidLabels}

/-- The instant that the commit date of a family denotes. -/
def date? (ls : Labels) (family : Family) : Option Instant :=
  (ls.get? family.labelKeys.commitDate).bind Instant.read?

/-- The recipe hash of a family. -/
def recipe? (ls : Labels) (family : Family) : Option String :=
  ls.get? family.labelKeys.recipeHash

/-- Labels that have what a family requires: a commit and a recipe that are not empty, and a date
that can be read. -/
structure ValidFor (ls : Labels) (family : Family) : Prop where
  commit : ∃ text, ls.get? family.labelKeys.commit = some text ∧ text ≠ ""
  date : ∃ date, ls.date? family = some date
  recipe : ∃ text, ls.recipe? family = some text ∧ text ≠ ""

theorem date?_of_validate (h : ls.validate family image = .ok v) :
    ls.date? family = some v.commitDate := by
  obtain ⟨hkeys, hrecords⟩ := validate_eq_ok_iff.1 h
  rw [date?, ← hkeys, hrecords.commitDate]

theorem recipe?_of_validate (h : ls.validate family image = .ok v) :
    ls.recipe? family = some v.recipeHash := by
  obtain ⟨hkeys, hrecords⟩ := validate_eq_ok_iff.1 h
  rw [recipe?, ← hkeys, hrecords.recipeHash]

/-- Such labels and no others pass validation. -/
theorem exists_validate_iff : (∃ v, ls.validate family image = .ok v) ↔ ls.ValidFor family := by
  constructor
  · rintro ⟨v, h⟩
    obtain ⟨hkeys, hrecords⟩ := validate_eq_ok_iff.1 h
    exact ⟨⟨v.commit, hkeys ▸ hrecords.commit, hrecords.commit_ne_empty⟩,
      ⟨v.commitDate, date?_of_validate h⟩,
      ⟨v.recipeHash, recipe?_of_validate h, hrecords.recipeHash_ne_empty⟩⟩
  · rintro ⟨⟨commit, hcommit, hcommit'⟩, ⟨date, hdate⟩, ⟨recipe, hrecipe, hrecipe'⟩⟩
    exact ⟨⟨family.labelKeys, commit, date, recipe⟩,
      validate_eq_ok_iff.2 ⟨rfl, hcommit, hcommit', hdate, hrecipe, hrecipe'⟩⟩

end Labels

theorem PullRequest.Trigger.forces_read_iff {phrase : String} :
    (read phrase).forces = true ↔ Text.trim phrase = "publish" := by
  unfold read ofText known
  by_cases hpublish : Text.trim phrase = "publish"
  · simp [hpublish, text, forces]
  · by_cases hpush : Text.trim phrase = "push"
    · simp [hpush, text, forces]
    · simp [Ne.symm hpublish, Ne.symm hpush, hpublish, text, forces]

namespace Gate

/-! ## The rules -/

namespace Reason

/-- The reasons in the order of their rules. -/
def order : List Reason :=
  [unmergeableState, noValidRemote, explicitOverride, newerSourceCommit, changedBuildRecipe,
    remoteSameOrNewer]

/-- What the rule of a reason asks, by itself. -/
def Holds (l : ValidLabels) (r : Option ValidLabels) (force mergeable : Bool) : Reason → Prop
  | unmergeableState => mergeable = false
  | noValidRemote => r = none
  | explicitOverride => force = true
  | newerSourceCommit => ∃ v, r = some v ∧ v.commitDate < l.commitDate
  | changedBuildRecipe =>
    ∃ v, r = some v ∧ l.commitDate = v.commitDate ∧ l.recipeHash ≠ v.recipeHash
  | remoteSameOrNewer => True

end Reason

/-- The reason of a verdict is that of the first rule that holds. -/
theorem isFirst_decide (l : ValidLabels) (r : Option ValidLabels) (force mergeable : Bool) :
    IsFirst (Reason.Holds l r force mergeable) Reason.order
      (decide l r force mergeable).reason := by
  cases mergeable with
  | false => exact .here rfl
  | true =>
    refine .later nofun ?_
    cases r with
    | none => exact .here rfl
    | some v =>
      refine .later nofun ?_
      cases force with
      | true => exact .here rfl
      | false =>
        refine .later nofun ?_
        simp only [decide, Bool.not_true, Bool.false_eq_true, if_false]
        by_cases hlater : v.commitDate < l.commitDate
        · rw [if_pos hlater]
          exact .here ⟨v, rfl, hlater⟩
        · rw [if_neg hlater]
          refine .later (by rintro ⟨_, ⟨⟩, h⟩; exact hlater h) ?_
          by_cases hchanged : l.commitDate = v.commitDate ∧ l.recipeHash ≠ v.recipeHash
          · rw [if_pos hchanged]
            exact .here ⟨v, rfl, hchanged⟩
          · rw [if_neg hchanged]
            exact .later (by rintro ⟨_, ⟨⟩, h⟩; exact hchanged h) (.here trivial)

/-! ## Cases -/

/-- What comes before the gate. -/
structure Case where
  /-- The family of the image. -/
  family : Family
  /-- The labels of the local image. -/
  labels : Labels
  /-- The labels of the registry's image, if it has one. -/
  remote : Option Labels
  /-- The phrase that started the build. -/
  phrase : String
  /-- Whether the pull request can be merged. -/
  mergeable : Bool

namespace Case

variable {c c' : Case} {own own' v : ValidLabels} {image image' remoteImage remoteImage' : String}
  {ls : Labels} {reason : Reason}

/-- The valid labels of the registry's image; invalid ones count as none. -/
def counted (c : Case) (remoteImage : String) : Option ValidLabels :=
  c.remote.bind fun ls => (ls.validate c.family remoteImage).toOption

/-- The verdict on a case in which the valid labels of the local image are `own`. -/
def verdict (c : Case) (own : ValidLabels) (remoteImage : String) : Verdict :=
  decide own (c.counted remoteImage) (PullRequest.Trigger.read c.phrase).forces c.mergeable

/-- The registry's image has these labels, and they are valid. -/
def Rivals (c : Case) (ls : Labels) : Prop :=
  c.remote = some ls ∧ ls.ValidFor c.family

/-- What the rule of a reason asks of the texts of a case. -/
def Applies (c : Case) : Reason → Prop
  | .unmergeableState => c.mergeable = false
  | .noValidRemote => ¬ ∃ ls, c.Rivals ls
  | .explicitOverride => Text.trim c.phrase = "publish"
  | .newerSourceCommit =>
    ∃ ls own other, c.Rivals ls ∧ c.labels.date? c.family = some own ∧
      ls.date? c.family = some other ∧ other < own
  | .changedBuildRecipe =>
    ∃ ls, c.Rivals ls ∧ c.labels.date? c.family = ls.date? c.family ∧
      c.labels.recipe? c.family ≠ ls.recipe? c.family
  | .remoteSameOrNewer => True

theorem counted_eq_some_iff :
    c.counted remoteImage = some v ↔
      ∃ ls, c.remote = some ls ∧ ls.validate c.family remoteImage = .ok v := by
  rw [counted, Option.bind_eq_some_iff]
  refine exists_congr fun ls => and_congr_right fun _ => ?_
  cases ls.validate c.family remoteImage <;> simp [Except.toOption]

/-- A rival is what counts, whatever the image is called in refusals. -/
theorem rivals_iff :
    c.Rivals ls ↔ c.remote = some ls ∧ ∃ v, ls.validate c.family remoteImage = .ok v :=
  and_congr_right fun _ => Labels.exists_validate_iff.symm

theorem not_rivals_iff : (¬ ∃ ls, c.Rivals ls) ↔ c.counted remoteImage = none := by
  rw [Option.eq_none_iff_forall_not_mem, not_exists]
  constructor
  · intro h v hv
    obtain ⟨ls, hremote, hvalid⟩ := counted_eq_some_iff.1 hv
    exact h ls (rivals_iff.2 ⟨hremote, v, hvalid⟩)
  · intro h ls hrival
    obtain ⟨hremote, v, hvalid⟩ := rivals_iff.1 hrival
    exact h v (counted_eq_some_iff.2 ⟨ls, hremote, hvalid⟩)

/-- On the texts of a case the rules ask what they ask of its valid labels. -/
theorem applies_iff (hown : c.labels.validate c.family image = .ok own) (remoteImage : String) :
    c.Applies reason ↔
      reason.Holds own (c.counted remoteImage) (PullRequest.Trigger.read c.phrase).forces
        c.mergeable := by
  have hdate := Labels.date?_of_validate hown
  have hrecipe := Labels.recipe?_of_validate hown
  cases reason with
  | unmergeableState => exact Iff.rfl
  | noValidRemote => exact not_rivals_iff
  | explicitOverride => exact PullRequest.Trigger.forces_read_iff.symm
  | newerSourceCommit =>
    constructor
    · rintro ⟨ls, _, _, hrival, hown', hother, hlater⟩
      obtain ⟨hremote, v, hvalid⟩ := rivals_iff.1 hrival
      obtain rfl := Option.some.inj (hdate.symm.trans hown')
      obtain rfl := Option.some.inj ((Labels.date?_of_validate hvalid).symm.trans hother)
      exact ⟨v, counted_eq_some_iff.2 ⟨ls, hremote, hvalid⟩, hlater⟩
    · rintro ⟨v, hv, hlater⟩
      obtain ⟨ls, hremote, hvalid⟩ := counted_eq_some_iff.1 hv
      exact ⟨ls, _, _, rivals_iff.2 ⟨hremote, v, hvalid⟩, hdate, Labels.date?_of_validate hvalid,
        hlater⟩
  | changedBuildRecipe =>
    constructor
    · rintro ⟨ls, hrival, hsame, hother⟩
      obtain ⟨hremote, v, hvalid⟩ := rivals_iff.1 hrival
      rw [hdate, Labels.date?_of_validate hvalid, Option.some_inj] at hsame
      rw [hrecipe, Labels.recipe?_of_validate hvalid, ne_eq, Option.some_inj] at hother
      exact ⟨v, counted_eq_some_iff.2 ⟨ls, hremote, hvalid⟩, hsame, hother⟩
    · rintro ⟨v, hv, hsame, hother⟩
      obtain ⟨ls, hremote, hvalid⟩ := counted_eq_some_iff.1 hv
      refine ⟨ls, rivals_iff.2 ⟨hremote, v, hvalid⟩, ?_, ?_⟩
      · rw [hdate, Labels.date?_of_validate hvalid, hsame]
      · rw [hrecipe, Labels.recipe?_of_validate hvalid, ne_eq, Option.some_inj]
        exact hother
  | remoteSameOrNewer => exact Iff.rfl

theorem isFirst_verdict (hown : c.labels.validate c.family image = .ok own) :
    IsFirst c.Applies Reason.order (c.verdict own remoteImage).reason :=
  (isFirst_congr fun _ _ => applies_iff hown remoteImage).2 (isFirst_decide _ _ _ _)

/-- In a round of a publication the verdict is that on a case: the labels that the engine tells of
the local image, those that the registry tells, and the phrase of the run. -/
theorem exists_of_judged {s : Settings} {user pr phrase : String} {t : Files.Tree}
    {round : Command.Round} {verdict : Verdict} (h : round.Judged s user pr t verdict)
    (hphrase : s.pr.trigger = .read phrase) :
    ∃ (c : Case) (own : ValidLabels), c.family = round.kind.family ∧ c.phrase = phrase ∧
      c.labels.validate c.family (Command.localImage s user pr round.kind) = .ok own ∧
      verdict = c.verdict own (Engine.tagged (round.kind.repository user) s.cpuArch) := by
  cases h with
  | @intro own published mergeable hown =>
    rw [Command.countedLabels, Option.bind_eq_some_iff] at hown
    obtain ⟨labels, -, hvalid⟩ := hown
    refine ⟨⟨round.kind.family, labels, published.toOption, phrase, mergeable⟩, own, rfl, rfl,
      Program.eq_ok_of_toOption hvalid, ?_⟩
    rw [← Command.forces_eq, hphrase]
    rfl

/-! ## Cases of one meaning -/

/-- Cases that mean the same: commits of one instant and one recipe on both sides, valid labels in
the registry for both or for neither, and the same phrase and pull request. -/
structure Alike (c c' : Case) : Prop where
  date : c.labels.date? c.family = c'.labels.date? c'.family
  recipe : c.labels.recipe? c.family = c'.labels.recipe? c'.family
  rivals : (∃ ls, c.Rivals ls) ↔ ∃ ls, c'.Rivals ls
  remoteDate : ∀ ls ls', c.Rivals ls → c'.Rivals ls' → ls.date? c.family = ls'.date? c'.family
  remoteRecipe : ∀ ls ls', c.Rivals ls → c'.Rivals ls' →
    ls.recipe? c.family = ls'.recipe? c'.family
  phrase : c.phrase = c'.phrase
  mergeable : c.mergeable = c'.mergeable

theorem Alike.symm (h : c.Alike c') : c'.Alike c where
  date := h.date.symm
  recipe := h.recipe.symm
  rivals := h.rivals.symm
  remoteDate ls ls' hls hls' := (h.remoteDate ls' ls hls' hls).symm
  remoteRecipe ls ls' hls hls' := (h.remoteRecipe ls' ls hls' hls).symm
  phrase := h.phrase.symm
  mergeable := h.mergeable.symm

theorem Alike.applies (h : c.Alike c') (happlies : c.Applies reason) : c'.Applies reason := by
  cases reason with
  | unmergeableState => exact h.mergeable.symm.trans happlies
  | noValidRemote => exact fun hrival => happlies (h.rivals.2 hrival)
  | explicitOverride => exact (congrArg Text.trim h.phrase.symm).trans happlies
  | newerSourceCommit =>
    obtain ⟨ls, own, other, hrival, hown, hother, hlater⟩ := happlies
    obtain ⟨ls', hrival'⟩ := h.rivals.1 ⟨ls, hrival⟩
    exact ⟨ls', own, other, hrival', h.date.symm.trans hown,
      (h.remoteDate ls ls' hrival hrival').symm.trans hother, hlater⟩
  | changedBuildRecipe =>
    obtain ⟨ls, hrival, hsame, hother⟩ := happlies
    obtain ⟨ls', hrival'⟩ := h.rivals.1 ⟨ls, hrival⟩
    rw [h.date, h.remoteDate ls ls' hrival hrival'] at hsame
    rw [h.recipe, h.remoteRecipe ls ls' hrival hrival'] at hother
    exact ⟨ls', hrival', hsame, hother⟩
  | remoteSameOrNewer => trivial

/-- To cases of one meaning the same rules apply. -/
theorem Alike.applies_iff (h : c.Alike c') : c.Applies reason ↔ c'.Applies reason :=
  ⟨h.applies, h.symm.applies⟩

/-- They get the same verdict: the first rule gives the reason, and the reason the rest. -/
theorem Alike.verdict_eq (h : c.Alike c') (hown : c.labels.validate c.family image = .ok own)
    (hown' : c'.labels.validate c'.family image' = .ok own') :
    c.verdict own remoteImage = c'.verdict own' remoteImage' := by
  have hreason : (c.verdict own remoteImage).reason = (c'.verdict own' remoteImage').reason :=
    (isFirst_verdict hown).unique
      ((isFirst_congr fun _ _ => h.applies_iff).2 (isFirst_verdict hown'))
  have hpublish : (c.verdict own remoteImage).publish = (c'.verdict own' remoteImage').publish := by
    rw [verdict, verdict, decide_publish, decide_publish]
    exact congrArg Reason.publishes hreason
  calc c.verdict own remoteImage
      = ⟨(c.verdict own remoteImage).publish, (c.verdict own remoteImage).reason⟩ := rfl
    _ = ⟨(c'.verdict own' remoteImage').publish, (c'.verdict own' remoteImage').reason⟩ := by
        rw [hpublish, hreason]
    _ = c'.verdict own' remoteImage' := rfl

end Case

/-- An image passes by one of the four rules that let it pass, if the pull request can be merged. -/
theorem decide_publish_iff_holds {l : ValidLabels} {r : Option ValidLabels}
    {force mergeable : Bool} :
    (decide l r force mergeable).publish = true ↔ mergeable = true ∧
      (Reason.Holds l r force mergeable .noValidRemote ∨
        Reason.Holds l r force mergeable .explicitOverride ∨
        Reason.Holds l r force mergeable .newerSourceCommit ∨
        Reason.Holds l r force mergeable .changedBuildRecipe) := by
  rw [decide_publish_iff]
  cases r <;> simp [Reason.Holds]

/-- **The gate on label texts.**  Whatever labels a local image has, if they are valid: it passes
exactly if the pull request can be merged and the registry has no image with valid labels, or the
phrase without blanks around it is the one for publication, or the date of the local image is a
later instant, or the dates are one instant and the recipes differ.  The reason given is that of
the first rule that applies.  A case with the same instants, recipes and validity gets the same
verdict, whatever else its labels say and however they say it. -/
theorem labelled_verdict {c : Case} {image : String} {own : ValidLabels}
    (hown : c.labels.validate c.family image = .ok own) (remoteImage : String) :
    ((c.verdict own remoteImage).publish = true ↔ c.mergeable = true ∧
      (c.Applies .noValidRemote ∨ c.Applies .explicitOverride ∨ c.Applies .newerSourceCommit ∨
        c.Applies .changedBuildRecipe)) ∧
    IsFirst c.Applies Reason.order (c.verdict own remoteImage).reason ∧
    ∀ c' image' own' remoteImage', c'.labels.validate c'.family image' = .ok own' → c.Alike c' →
      c'.verdict own' remoteImage' = c.verdict own remoteImage := by
  refine ⟨?_, Case.isFirst_verdict hown, fun c' image' own' remoteImage' hown' halike =>
    (halike.verdict_eq hown hown').symm⟩
  simp only [Case.applies_iff hown remoteImage]
  exact decide_publish_iff_holds

/-! Two images built by another recipe than those in the registry, at one instant. -/

namespace Rebuilt

/-- What labels of a family record. -/
def recorded (family : Family) (commit recipe : String) : ValidLabels :=
  ⟨family.labelKeys, commit, ⟨1709251200, 0⟩, recipe⟩

def labels (family : Family) (commit date recipe : String) : Labels :=
  Labels.ofList [(family.labelKeys.commit, commit), (family.labelKeys.commitDate, date),
    (family.labelKeys.recipeHash, recipe)]

/-- The labels in the registry of the product. -/
def published : Labels := labels .product "beef" " 2024-03-01t00:00:00z" "xyz"

def product : Case where
  family := .product
  labels := labels .product "c0ffee" "2024-03-01T09:00:00+09:00" "abc"
  remote := some published
  phrase := " push "
  mergeable := true

/-- The labels in the registry of the toolchain. -/
def publishedToolchain : Labels := labels .toolchain "a1b2" "2024-03-01 00:00:00.0Z" "xyz"

def toolchain : Case where
  family := .toolchain
  labels := labels .toolchain "a1b2" "2024-02-29T23:30:00-00:30" "abc"
  remote := some publishedToolchain
  phrase := " push "
  mergeable := true

end Rebuilt

open Rebuilt in
/-- They pass alike: the texts of the dates differ in all four places, the instants do not. -/
theorem labelled_verdict_rebuilt :
    (product.verdict (recorded .product "c0ffee" "abc") "").publish = true ∧
      IsFirst product.Applies Reason.order
        (product.verdict (recorded .product "c0ffee" "abc") "").reason ∧
      toolchain.verdict (recorded .toolchain "a1b2" "abc") "" =
        product.verdict (recorded .product "c0ffee" "abc") "" := by
  have hown : product.labels.validate product.family "" =
      .ok (recorded .product "c0ffee" "abc") := by decide +kernel
  have hown' : toolchain.labels.validate toolchain.family "" =
      .ok (recorded .toolchain "a1b2" "abc") := by decide +kernel
  have hvalid : published.validate .product "" = .ok (recorded .product "beef" "xyz") := by
    decide +kernel
  have hvalid' : publishedToolchain.validate .toolchain "" =
      .ok (recorded .toolchain "a1b2" "xyz") := by decide +kernel
  have hrival : product.Rivals published := ⟨rfl, Labels.exists_validate_iff.1 ⟨_, hvalid⟩⟩
  have hrival' : toolchain.Rivals publishedToolchain :=
    ⟨rfl, Labels.exists_validate_iff.1 ⟨_, hvalid'⟩⟩
  have halike : product.Alike toolchain := by
    refine ⟨?_, ?_, iff_of_true ⟨_, hrival⟩ ⟨_, hrival'⟩, ?_, ?_, rfl, rfl⟩
    · exact (Labels.date?_of_validate hown).trans (Labels.date?_of_validate hown').symm
    · exact (Labels.recipe?_of_validate hown).trans (Labels.recipe?_of_validate hown').symm
    · rintro _ _ ⟨⟨⟩, -⟩ ⟨⟨⟩, -⟩
      exact (Labels.date?_of_validate hvalid).trans (Labels.date?_of_validate hvalid').symm
    · rintro _ _ ⟨⟨⟩, -⟩ ⟨⟨⟩, -⟩
      exact (Labels.recipe?_of_validate hvalid).trans (Labels.recipe?_of_validate hvalid').symm
  obtain ⟨hpublish, hfirst, hsame⟩ := labelled_verdict hown ""
  refine ⟨hpublish.2 ⟨rfl, .inr (.inr (.inr ⟨published, hrival, ?_, ?_⟩))⟩, hfirst,
    hsame _ _ _ _ hown' halike⟩
  · exact (Labels.date?_of_validate hown).trans (Labels.date?_of_validate hvalid).symm
  · rw [Labels.recipe?_of_validate hown]
    exact fun h => absurd (h.trans (Labels.recipe?_of_validate hvalid)) (by decide)

end Gate

end ImagePipeline
