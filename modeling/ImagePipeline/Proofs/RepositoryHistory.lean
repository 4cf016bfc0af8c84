import ImagePipeline.Proofs.GateDecision
import Mathlib.Order.Lattice

/-!
# What a repository holds after many publications

A repository of the registry holds the labels of one image, or nothing yet.  Attempts to publish
come one after the other, from pull requests that know nothing of each other; each that the gate
lets pass replaces what is held.  Without force the gate makes the repository a running maximum.

* `Attempt.next`, `heldAfter`: what is held after one attempt and after many.
* `IsNewest`: an image of a list with the latest date; `HoldsNewest` says that a repository holds
  one, and `HoldsNewest.next` and `HoldsNewest.heldAfter` that attempts keep it so.
* `IsNewest.edition_eq`: where one date means one recipe, images that are newest are of one
  edition.
* `repository_history`: dates never go back, an attempt has no effect the second time, and in the
  end the order of the attempts does not show.
-/

namespace ImagePipeline

/-- The date of an image's commit with the recipe it was built by. -/
def ValidLabels.edition (v : ValidLabels) : Instant × String :=
  (v.commitDate, v.recipeHash)

namespace Gate

/-- An attempt to publish an image that nothing forces. -/
structure Attempt where
  /-- The labels of the local image. -/
  image : ValidLabels
  /-- Whether the pull request can be merged. -/
  mergeable : Bool
deriving DecidableEq

/-- What a repository holds after an attempt. -/
def Attempt.next (held : Option ValidLabels) (a : Attempt) : Option ValidLabels :=
  if (decide a.image held false a.mergeable).publish then some a.image else held

/-- What a repository holds after some attempts, in order. -/
def heldAfter (held : Option ValidLabels) (attempts : List Attempt) : Option ValidLabels :=
  attempts.foldl Attempt.next held

/-- The images of the attempts that can be merged. -/
def offered (attempts : List Attempt) : List ValidLabels :=
  (attempts.filter (·.mergeable)).map (·.image)

/-- What is held in the beginning and what is offered. -/
def contenders (held : Option ValidLabels) (attempts : List Attempt) : List ValidLabels :=
  held.toList ++ offered attempts

variable {held : Option ValidLabels} {a : Attempt} {attempts : List Attempt}
  {images images' : List ValidLabels} {u v : ValidLabels}

@[simp] theorem heldAfter_nil : heldAfter held [] = held := rfl

@[simp] theorem heldAfter_cons :
    heldAfter held (a :: attempts) = heldAfter (a.next held) attempts := rfl

@[simp] theorem heldAfter_append {later : List Attempt} :
    heldAfter held (attempts ++ later) = heldAfter (heldAfter held attempts) later :=
  List.foldl_append

theorem offered_cons : offered (a :: attempts) = offered [a] ++ offered attempts := by
  rw [offered, offered, offered, ← List.map_append, ← List.filter_append, List.singleton_append]

theorem mem_offered_singleton : v ∈ offered [a] ↔ a.mergeable = true ∧ v = a.image := by
  cases h : a.mergeable <;> simp [offered, h]

theorem contenders_perm {attempts' : List Attempt} (h : attempts'.Perm attempts) :
    (contenders held attempts').Perm (contenders held attempts) :=
  ((h.filter _).map _).append_left _

/-! ## The newest image -/

/-- `v` is one of the images, and none of them has a later date. -/
structure IsNewest (images : List ValidLabels) (v : ValidLabels) : Prop where
  mem : v ∈ images
  le : ∀ u ∈ images, u.commitDate ≤ v.commitDate

/-- A newest image of some is held, or nothing because there is none. -/
def HoldsNewest (images : List ValidLabels) : Option ValidLabels → Prop
  | none => images = []
  | some v => IsNewest images v

/-- Two images of one date are of one recipe. -/
def OneRecipePerDate (images : List ValidLabels) : Prop :=
  ∀ u ∈ images, ∀ v ∈ images, u.commitDate = v.commitDate → u.recipeHash = v.recipeHash

theorem HoldsNewest.of_perm (h : HoldsNewest images' held) (hperm : images'.Perm images) :
    HoldsNewest images held := by
  cases held with
  | none =>
    have himages : images' = [] := h
    exact List.perm_nil.1 (himages ▸ hperm.symm)
  | some v => exact ⟨hperm.mem_iff.1 h.mem, fun u hu => h.le u (hperm.mem_iff.2 hu)⟩

theorem holdsNewest_toList : HoldsNewest held.toList held := by
  cases held with
  | none => rfl
  | some v => exact ⟨by simp, by simp⟩

/-- All newest images are of one edition. -/
theorem IsNewest.edition_eq (hu : IsNewest images u) (hv : IsNewest images v)
    (hrecipes : OneRecipePerDate images) : u.edition = v.edition := by
  have hdate : u.commitDate = v.commitDate := le_antisymm (hv.le u hu.mem) (hu.le v hv.mem)
  have hrecipe : u.recipeHash = v.recipeHash := hrecipes u hu.mem v hv.mem hdate
  rw [ValidLabels.edition, ValidLabels.edition, hdate, hrecipe]

/-- So are repositories that hold one. -/
theorem HoldsNewest.edition_eq {held' : Option ValidLabels} (h : HoldsNewest images held)
    (h' : HoldsNewest images held') (hrecipes : OneRecipePerDate images) :
    held.map (·.edition) = held'.map (·.edition) := by
  cases held with
  | none =>
    have himages : images = [] := h
    cases held' with
    | none => rfl
    | some v => exact absurd (himages ▸ h'.mem) List.not_mem_nil
  | some u =>
    cases held' with
    | none =>
      have himages : images = [] := h'
      exact absurd (himages ▸ h.mem) List.not_mem_nil
    | some v => rw [Option.map_some, Option.map_some, IsNewest.edition_eq h h' hrecipes]

/-! ## Attempts -/

/-- An attempt keeps the newest image in the repository, its own included. -/
theorem HoldsNewest.next (h : HoldsNewest images held) (a : Attempt) :
    HoldsNewest (images ++ offered [a]) (a.next held) := by
  unfold Attempt.next
  by_cases hpublish : (decide a.image held false a.mergeable).publish = true
  · rw [if_pos hpublish]
    obtain ⟨hmergeable, hnewer⟩ := decide_publish_iff.1 hpublish
    refine ⟨List.mem_append_right _ (mem_offered_singleton.2 ⟨hmergeable, rfl⟩), fun u hu => ?_⟩
    rcases List.mem_append.1 hu with hu | hu
    · cases held with
      | none =>
        have himages : images = [] := h
        simp [himages] at hu
      | some v =>
        have hle : v.commitDate ≤ a.image.commitDate := by
          rcases hnewer v rfl with hforce | hlater | ⟨hdate, -⟩
          · cases hforce
          · exact hlater.le
          · exact hdate.ge
        exact (h.le u hu).trans hle
    · rw [(mem_offered_singleton.1 hu).2]
  · rw [if_neg hpublish]
    cases held with
    | none =>
      have hmergeable : a.mergeable = false := by
        by_contra hmergeable
        exact hpublish (decide_publish_iff.2 ⟨by simpa using hmergeable, by simp⟩)
      have himages : images = [] := h
      simp [HoldsNewest, himages, offered, hmergeable]
    | some v =>
      refine ⟨List.mem_append_left _ h.mem, fun u hu => ?_⟩
      rcases List.mem_append.1 hu with hu | hu
      · exact h.le u hu
      · obtain ⟨hmergeable, rfl⟩ := mem_offered_singleton.1 hu
        by_contra hlater
        refine hpublish (decide_publish_iff.2 ⟨hmergeable, ?_⟩)
        rintro w ⟨rfl⟩
        exact .inr (.inl (not_le.1 hlater))

/-- So do many attempts. -/
theorem HoldsNewest.heldAfter (h : HoldsNewest images held) (attempts : List Attempt) :
    HoldsNewest (images ++ offered attempts) (heldAfter held attempts) := by
  induction attempts generalizing images held with
  | nil => simpa [offered] using h
  | cons a attempts ih =>
    rw [offered_cons, ← List.append_assoc, heldAfter_cons]
    exact ih (h.next a)

/-- The gate has nothing for an attempt that was just made. -/
theorem not_publish_next :
    (decide a.image (a.next held) false a.mergeable).publish = false := by
  unfold Attempt.next
  by_cases hpublish : (decide a.image held false a.mergeable).publish = true
  · rw [if_pos hpublish]
    exact not_publish_self
  · rw [if_neg hpublish]
    exact Bool.eq_false_iff.2 hpublish

theorem next_next : a.next (a.next held) = a.next held := by
  show (if (decide a.image (a.next held) false a.mergeable).publish then some a.image
    else a.next held) = _
  rw [not_publish_next, if_neg Bool.false_ne_true]

/-- **A repository only moves forward.**  Whatever a repository holds and whatever is attempted:
once it holds an image, it never holds one of an earlier date; an attempt that is repeated at once
is held back the second time; and in the end it holds a newest one of the images that it held or
was offered.  If images of one date are of one recipe, then the edition it holds is the same for
every order of the attempts, and that of every newest image. -/
theorem repository_history (held : Option ValidLabels) (attempts : List Attempt) :
    (∀ earlier later v, attempts = earlier ++ later → heldAfter held earlier = some v →
      ∃ v', heldAfter held attempts = some v' ∧ v.commitDate ≤ v'.commitDate) ∧
    (∀ earlier a later, attempts = earlier ++ a :: later →
      (decide a.image (heldAfter held (earlier ++ [a])) false a.mergeable).publish = false ∧
        heldAfter held (earlier ++ a :: a :: later) = heldAfter held attempts) ∧
    HoldsNewest (contenders held attempts) (heldAfter held attempts) ∧
    (OneRecipePerDate (contenders held attempts) →
      (∀ attempts', attempts'.Perm attempts →
        (heldAfter held attempts').map (·.edition) = (heldAfter held attempts).map (·.edition)) ∧
      ∀ v, IsNewest (contenders held attempts) v →
        (heldAfter held attempts).map (·.edition) = some v.edition) := by
  have hholds : ∀ attempts', HoldsNewest (contenders held attempts') (heldAfter held attempts') :=
    fun attempts' => holdsNewest_toList.heldAfter attempts'
  refine ⟨?_, ?_, hholds attempts, fun hrecipes => ⟨?_, ?_⟩⟩
  · rintro earlier later v rfl hv
    have hstart : HoldsNewest [v] (some v) := @holdsNewest_toList (some v)
    have hlater : HoldsNewest ([v] ++ offered later) (heldAfter (some v) later) :=
      hstart.heldAfter later
    rw [heldAfter_append, hv]
    cases hend : heldAfter (some v) later with
    | none => simp [hend, HoldsNewest] at hlater
    | some v' =>
      rw [hend] at hlater
      exact ⟨v', rfl, hlater.le v (by simp)⟩
  · rintro earlier a later rfl
    constructor
    · simpa using not_publish_next
    · simp [next_next]
  · intro attempts' hperm
    exact ((hholds attempts').of_perm (contenders_perm hperm)).edition_eq (hholds attempts)
      hrecipes
  · intro v hv
    have hheld : HoldsNewest (contenders held attempts) (some v) := hv
    exact (hholds attempts).edition_eq hheld hrecipes

/-! Three pull requests, of which the one with the latest commit cannot be merged. -/

namespace Offers

def image (commit : String) (second : Nat) (recipe : String) : ValidLabels :=
  ⟨Family.toolchain.labelKeys, commit, ⟨second, 0⟩, recipe⟩

def made : List Attempt :=
  [⟨image "b" 2 "r", true⟩, ⟨image "c" 3 "r", false⟩, ⟨image "a" 1 "q", true⟩]

end Offers

/-- The later one of the two that can be merged stays, also when they come the other way round. -/
theorem repository_history_offers :
    (heldAfter none Offers.made).map (·.edition) = some (Offers.image "b" 2 "r").edition ∧
      (heldAfter none Offers.made.reverse).map (·.edition) =
        some (Offers.image "b" 2 "r").edition := by
  obtain ⟨-, -, -, hedition⟩ := repository_history none Offers.made
  have hrecipes : OneRecipePerDate (contenders none Offers.made) := by
    unfold OneRecipePerDate
    decide
  have hnewest : IsNewest (contenders none Offers.made) (Offers.image "b" 2 "r") :=
    ⟨by decide, by decide⟩
  obtain ⟨horder, hlast⟩ := hedition hrecipes
  have hreverse := horder Offers.made.reverse (List.reverse_perm Offers.made)
  exact ⟨hlast _ hnewest, hreverse.trans (hlast _ hnewest)⟩

end Gate

end ImagePipeline
